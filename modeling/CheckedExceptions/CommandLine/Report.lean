import CheckedExceptions.Finding
import CheckedExceptions.Text.Rendering

/-!
How diagnostics are shown: as lines for people, or as one JSON object for programs.
-/
namespace CheckedExceptions

open Text

def Diagnostic.toJson (d : Diagnostic) : Json :=
  .object
    [ ("phase", .optional .string d.phase),
      ("code", .optional .string d.code),
      ("message", .string d.message),
      ("severity", .string d.severity),
      ("file", .optional .string d.span.file),
      ("line", .optional .number d.span.line),
      ("column", .optional .number d.span.column),
      ("notes", .array (d.notes.map .string)) ]

/-- A diagnostic and its notes, one on each line. -/
def Diagnostic.lines (d : Diagnostic) : List String :=
  d.render :: d.notes.map fun note => s!"  note: {note}"

namespace CommandLine

/-- Only errors make a check fail. -/
def exitCode (ds : List Diagnostic) : Nat := if ds.any (·.severity = "error") then 1 else 0

def jsonReport (ds : List Diagnostic) : String :=
  let report := Json.object
    [ ("exit_code", .number (exitCode ds)), ("diagnostics", .array (ds.map Diagnostic.toJson)) ]
  report.render

def textReport (ds : List Diagnostic) : List String := ds.flatMap Diagnostic.lines

end CommandLine

end CheckedExceptions
