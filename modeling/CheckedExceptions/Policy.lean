import CheckedExceptions.Hierarchy
import CheckedExceptions.Text.Characters

/-!
Policies: which exception types need no declaration. The standard policy exempts everything below
the runtime exceptions and the errors, the strict one only the errors, and the fatal one only
failures of the machine, of linkage and of assertions.
-/
namespace CheckedExceptions

inductive Policy
  | standard | strict | fatal
deriving DecidableEq, Repr, Inhabited

namespace Policy

def all : List Policy := [standard, strict, fatal]

def name : Policy → String
  | standard => "standard"
  | strict => "strict"
  | fatal => "fatal"

/-- The types at or below which nothing needs a declaration. -/
def exempt (roots : Roots) : Policy → List ExceptionType
  | standard => [roots.runtime, roots.error]
  | strict => [roots.error]
  | fatal => roots.fatal

def isUnchecked (h : Hierarchy) (roots : Roots) (p : Policy) (t : ExceptionType) : Bool :=
  (p.exempt roots).any (h.isSubtype t)

/-- White space around a name and the case of its letters do not matter. Only ASCII letters have a
case here: no other character becomes one of the letters of a policy's name. -/
def ofName? (name : String) : Option Policy :=
  let word := (Text.trim name.toList).map Char.toLower
  all.find? fun p => p.name.toList = word

/-- The message about a name that is no policy's. -/
def unknownMessage (name : String) : String :=
  s!"unknown checked exception config '{name}' (expected one of: " ++
    ", ".intercalate (all.map Policy.name) ++ ")"

end Policy

end CheckedExceptions
