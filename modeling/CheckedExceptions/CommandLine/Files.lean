/-!
Paths, and a working directory held in memory. A path is written without empty and `.` parts; only
two slashes at its very front are told apart from one. Line ends of a file are read as line feeds.
-/
namespace CheckedExceptions.CommandLine

/-- The parts of a path between slashes. -/
def pathParts (path : String) : List String :=
  (path.splitOn "/").filter fun part => part ≠ "" ∧ part ≠ "."

/-- One slash for an absolute path, two if it begins with exactly two. -/
def pathRoot (path : String) : String :=
  match (path.toList.takeWhile (· = '/')).length with
  | 0 => ""
  | 2 => "//"
  | _ => "/"

/-- The normal form of a path. -/
def normalPath (path : String) : String :=
  match pathRoot path ++ "/".intercalate (pathParts path) with
  | "" => "."
  | text => text

/-- A carriage return, alone or before a line feed, is a line feed. -/
def unifyLineEnds : List Char → List Char
  | '\r' :: '\n' :: cs => '\n' :: unifyLineEnds cs
  | '\r' :: cs => '\n' :: unifyLineEnds cs
  | c :: cs => c :: unifyLineEnds cs
  | [] => []

inductive ReadFailure
  | notFound | isDirectory | notDirectory | nameTooLong
  | other (text : String)
deriving DecidableEq, Repr

def ReadFailure.message : ReadFailure → String
  | notFound => "No such file or directory"
  | isDirectory => "Is a directory"
  | notDirectory => "Not a directory"
  | nameTooLong => "File name too long"
  | other text => text

/-- The files of a working directory by their paths; a path without a text is a directory, and so
is every path above another. -/
structure Directory where
  files : List (List String × Option String)

namespace Directory

def ofPaths (files : List (String × Option String)) : Directory :=
  ⟨files.map fun (path, text) => (pathParts path, text)⟩

/-- What a path from the working directory leads to: a text, or nothing for a directory. -/
def entry? (d : Directory) (parts : List String) : Option (Option String) :=
  if parts.isEmpty then some none
  else
    match d.files.find? (·.1 = parts) with
    | some (_, text) => some text
    | none => if d.files.any fun f => parts.isPrefixOf f.1 then some none else none

/-- Why nothing can be read under a name that is not there. Names have at most 255 bytes. -/
def missing (name : String) : ReadFailure :=
  if name.utf8ByteSize ≤ 255 then .notFound else .nameTooLong

/-- Nothing is known of what lies outside of the working directory, except that the directory above
a directory is always there, and that there is none above the root but the root itself. -/
def outside : List String → ReadFailure
  | [] => .isDirectory
  | ".." :: parts => outside parts
  | name :: _ => missing name

/-- Follows the parts of a path from a place that is a directory, given from its last part on. -/
def follow (d : Directory) : List String → List String → Except ReadFailure String
  | _, [] => .error .isDirectory
  | place, ".." :: rest =>
    match place with
    | _ :: above => follow d above rest
    | [] => .error (outside rest)
  | place, part :: rest =>
    match d.entry? (part :: place).reverse, rest with
    | none, _ => .error (missing part)
    | some none, _ => follow d (part :: place) rest
    | some (some text), [] => .ok text
    | some (some _), _ => .error .notDirectory

/-- Reads the file at a path, which has less than 4096 bytes. -/
def read (d : Directory) (path : String) : Except ReadFailure String :=
  if 4096 ≤ (normalPath path).utf8ByteSize then .error .nameTooLong
  else
    match pathRoot path with
    | "" => d.follow [] (pathParts path)
    | _ => .error (outside (pathParts path))

end Directory

end CheckedExceptions.CommandLine
