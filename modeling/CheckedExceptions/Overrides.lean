import CheckedExceptions.Finding
import CheckedExceptions.Symbol

/-!
Which symbols a symbol overrides, and the rule that an overriding method declares nothing beyond
what the overridden ones declare together.
-/
namespace CheckedExceptions

/-- Rows of a symbol and what it overrides. Rows are found by the identity of the symbol. -/
structure Overrides where
  rows : List (Symbol × List Symbol) := []

namespace Overrides

def size (o : Overrides) : Nat := o.rows.length

def overridden (o : Overrides) (s : Symbol) : List Symbol :=
  match o.rows.find? (·.1.identity = s.identity) with
  | some (_, parents) => parents
  | none => []

/-- Puts a row in place of the one for the same symbol, or else at the end. -/
def put (s : Symbol) (parents : List Symbol) :
    List (Symbol × List Symbol) → List (Symbol × List Symbol)
  | [] => [(s, parents)]
  | row :: rows =>
    if row.1.identity = s.identity then (row.1, parents) :: rows else row :: put s parents rows

/-- Later rows replace earlier ones for the same symbol. -/
def ofRows (rows : List (Symbol × List Symbol)) : Overrides :=
  ⟨rows.foldl (fun table (s, parents) => put s parents table) []⟩

/-- Adds a symbol to those that `s` overrides, unless it is there already. -/
def add (o : Overrides) (s parent : Symbol) : Overrides :=
  let known := o.overridden s
  if known.any (·.identity = parent.identity) then o else ⟨put s (known ++ [parent]) o.rows⟩

end Overrides

/-- The declared types that no type declared by a parent covers. -/
def typesBeyond (isSubtype : ExceptionType → ExceptionType → Bool)
    (declared inherited : List ExceptionType) : List ExceptionType :=
  declared.filter fun t => !inherited.any (isSubtype t)

/-- A method that overrides nothing may declare anything. -/
def overrideFindings (isSubtype : ExceptionType → ExceptionType → Bool) (span : Span)
    (method : String) (declared inherited : List ExceptionType) (overridesAny : Bool) :
    List Finding :=
  if overridesAny then
    (typesBeyond isSubtype declared inherited).map (.cannotOverride span method)
  else []

end CheckedExceptions
