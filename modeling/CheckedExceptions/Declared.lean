import CheckedExceptions.Finding
import CheckedExceptions.Symbol

/-!
Declared exceptions. A `throws` marker declares the one type that it names, either as its only
class-literal argument or, failing that, as its only type argument. A marker that names no single
resolved type spoils the whole declaration. Readings are remembered by the identity of the symbols,
and a spoiled one is reported anew at each place that uses it.
-/
namespace CheckedExceptions

def Symbol.isExempt (s : Symbol) : Bool := s.markers.any (·.name = "unchecked")

namespace Marker

def isThrows (m : Marker) : Bool := m.name = "throws"

/-- The single type that a marker names. -/
def declared? (m : Marker) : Option ExceptionType :=
  match m.form.args, m.form.typeArgs with
  | [.classLiteral t], _ => t.type?
  | _, [t] => t.type?
  | _, _ => none

end Marker

namespace Declared

/-- The declared types, or the first marker that cannot be read. -/
abbrev Reading := Except Marker (List ExceptionType)

def readMarkers : List Marker → Reading
  | [] => .ok []
  | m :: ms =>
    if m.isThrows then
      match m.declared? with
      | none => .error m
      | some t => (readMarkers ms).map (t :: ·)
    else readMarkers ms

/-- The declaration of several symbols: their markers one after the other. -/
def read (symbols : List Symbol) : Reading := readMarkers (symbols.flatMap (·.markers))

end Declared

/-- Readings by the identities of the symbols they were made from. -/
structure Readings where
  known : List (List Symbol.Identity × Declared.Reading) := []

namespace Readings

def size (r : Readings) : Nat := r.known.length

/-- The remembered reading of the symbols, or a fresh one, which is remembered from now on. -/
def consult (r : Readings) (symbols : List Symbol) : Declared.Reading × Readings :=
  let key := symbols.map Symbol.identity
  match r.known.lookup key with
  | some reading => (reading, r)
  | none =>
    let reading := Declared.read symbols
    (reading, ⟨(key, reading) :: r.known⟩)

/-- The types declared by the symbols, or the finding that `owner` has an invalid declaration. -/
def declaredBy (r : Readings) (symbols : List Symbol) (span : Span) (owner : String) :
    Except Finding (List ExceptionType) × Readings :=
  let (reading, r) := r.consult symbols
  (reading.mapError fun m => .invalidDeclaration span m.text owner, r)

end Readings

end CheckedExceptions
