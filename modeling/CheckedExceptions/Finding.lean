import CheckedExceptions.Span
import CheckedExceptions.Hierarchy

/-!
Findings of a check, and the diagnostics they are shown as.
-/
namespace CheckedExceptions

inductive Finding
  /-- A type may be thrown at the span, and is neither caught nor declared. -/
  | unhandled (span : Span) (type : ExceptionType)
  /-- A method declares a type that nothing it overrides declares. -/
  | cannotOverride (span : Span) (method : String) (type : ExceptionType)
  /-- A marker in the declaration of `owner` names no single exception type. -/
  | invalidDeclaration (span : Span) (marker owner : String)
deriving DecidableEq, Repr

namespace Finding

def span : Finding → Span
  | unhandled span _ | cannotOverride span _ _ | invalidDeclaration span _ _ => span

def code : Finding → String
  | unhandled .. => "UNHANDLED_THROWABLE"
  | cannotOverride .. => "CANNOT_OVERRIDE"
  | invalidDeclaration .. => "INVALID_THROWS"

def message : Finding → String
  | unhandled _ type =>
    s!"unreported exception {type.name}; must be caught or declared to be thrown"
  | cannotOverride _ method type => s!"overridden method {method} does not throw {type.name}"
  | invalidDeclaration _ marker owner => s!"Unsupported @throws marker '{marker}' on `{owner}`"

def unhandledType? : Finding → Option ExceptionType
  | unhandled _ type => some type
  | _ => none

/-- The distinct types that may escape unhandled. -/
def unhandledTypes (findings : List Finding) : List ExceptionType :=
  (findings.filterMap unhandledType?).eraseDups

/-- How many findings there are of each kind: unhandled, overrides, declarations. -/
def counts (findings : List Finding) : Nat × Nat × Nat :=
  findings.foldl (fun (u, o, d) finding =>
    match finding with
    | unhandled .. => (u + 1, o, d)
    | cannotOverride .. => (u, o + 1, d)
    | invalidDeclaration .. => (u, o, d + 1)) (0, 0, 0)

end Finding

structure Diagnostic where
  message : String
  code : Option String := none
  phase : Option String := none
  severity : String := "error"
  span : Span := {}
  notes : List String := []
deriving DecidableEq, Repr

/-- The line `location: severity: message`. -/
def Diagnostic.render (d : Diagnostic) : String := s!"{d.span.render}: {d.severity}: {d.message}"

def Finding.notes : Finding → List String
  | invalidDeclaration .. =>
    ["accepted forms: @throws[T] or @throws(classOf[T]) naming one exception type"]
  | _ => []

def Finding.toDiagnostic (f : Finding) : Diagnostic :=
  { message := f.message, code := some f.code, phase := some "exceptions", span := f.span,
    notes := f.notes }

end CheckedExceptions
