import CheckedExceptions.Hierarchy
import CheckedExceptions.Language.Token
import CheckedExceptions.Symbol

/-!
Why a program that is written correctly has no typed tree.
-/
namespace CheckedExceptions

/-- The location of a part of a text in a file. -/
def Span.ofExtent (file : Option String) (x : Language.Extent) : Span :=
  { file, line := some x.start.line, column := some x.start.column,
    endLine := some x.stop.line, endColumn := some x.stop.column }

namespace Typing

inductive Cause
  | registration (e : RegistrationError)
  | duplicate (name : String)
  | unknownSuperclass (name child : String)
  | untypedRaise
  | unknownCaughtType (name : String)
  | unresolvedCall (name : String)
  | unknownClass (name : String)
  | unknownReceiver (method : String)
  | unknownMethod (className method : String)
  | thisCallOutsideClass
deriving DecidableEq, Repr

def Cause.message : Cause → String
  | registration e => e.message
  | duplicate name => s!"duplicate definition of '{name}'"
  | unknownSuperclass name child => s!"unknown class '{name}' in extends clause of '{child}'"
  | untypedRaise => "raised value has no static exception type"
  | unknownCaughtType name => s!"unknown exception type '{name}' in catch pattern"
  | unresolvedCall name => s!"cannot resolve call to '{name}'"
  | unknownClass name => s!"unknown class '{name}'"
  | unknownReceiver method => s!"cannot resolve method '{method}': receiver has no known class"
  | unknownMethod className method => s!"class '{className}' has no method '{method}'"
  | thisCallOutsideClass => "'this(...)' outside of a class"

/-- What names and members are looked up as in the tables of the declarations. -/
inductive Key
  | function (name : String)
  | classType (name : String)
  /-- A member of a class, by its index among all members. -/
  | member (index : Nat)
  | method (name : String)
  | constructor (symbol : Symbol)
deriving DecidableEq, Repr

/-- A fault of the program at a place, or a number with too many digits. The others never occur:
every hierarchy has the types that are asked for, and all declarations have their entries. -/
inductive Error
  | program (cause : Cause) (span : Span)
  | tooManyDigits (count : Nat)
  | missingType (e : UnknownType)
  | missingEntry (key : Key)
deriving DecidableEq, Repr

/-- What was looked up, which must be there. -/
def found {α : Type} (key : Key) : Option α → Except Error α
  | some a => .ok a
  | none => .error (.missingEntry key)

end Typing

end CheckedExceptions
