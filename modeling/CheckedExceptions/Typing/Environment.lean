import CheckedExceptions.Typing.Declarations

/-!
Lexical scopes: what is known of the types of local names. A name that is bound without a known
type hides the bindings of the same name further out.
-/
namespace CheckedExceptions.Typing

/-- The static type of a value, where it is an exception type or a class of the program. -/
inductive ValueType
  | exception (t : ExceptionType)
  | classType (c : ClassEntry)

namespace ValueType

def exception? : Option ValueType → Option ExceptionType
  | some (exception t) => some t
  | _ => none

def class? : Option ValueType → Option ClassEntry
  | some (classType c) => some c
  | _ => none

end ValueType

/-- The bindings of one scope, newest first. -/
abbrev LocalScope := List (String × Option ValueType)

/-- The open scopes, innermost first. -/
structure Environment where
  scopes : List LocalScope

namespace Environment

def initial : Environment := ⟨[[]]⟩

def push (e : Environment) : Environment := ⟨[] :: e.scopes⟩

def pop (e : Environment) : Environment := ⟨e.scopes.tail⟩

/-- Binds a name in the innermost scope. -/
def bind (e : Environment) (name : String) (type : Option ValueType) : Environment :=
  match e.scopes with
  | [] => ⟨[[(name, type)]]⟩
  | scope :: outer => ⟨((name, type) :: scope) :: outer⟩

/-- The innermost binding of a name, which may have no known type. -/
def lookup (e : Environment) (name : String) : Option (Option ValueType) :=
  e.scopes.findSome? (·.lookup name)

end Environment

end CheckedExceptions.Typing
