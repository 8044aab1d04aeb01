/-!
Exception types and their single-inheritance table. A type is registered below a type that is
already there, so the table, kept newest first, has the parent of every entry among the entries
behind it: climbing from a type to its supertypes only moves towards the end of the table.
-/
namespace CheckedExceptions

structure ExceptionType where
  name : String
deriving DecidableEq, Repr, Inhabited

/-- A registered type and the type it extends, if any. -/
structure Entry where
  name : String
  parent : Option String
deriving DecidableEq, Repr

structure Hierarchy where
  /-- The entries, newest first. -/
  entries : List Entry
deriving DecidableEq, Repr

inductive RegistrationError
  | alreadyRegistered (name : String)
  | unknownParent (name parent : String)
deriving DecidableEq, Repr

def RegistrationError.message : RegistrationError → String
  | alreadyRegistered name => s!"exception type '{name}' is already registered"
  | unknownParent name parent => s!"unknown parent exception type '{parent}' for '{name}'"

/-- A type was asked for by a name that is not registered. -/
structure UnknownType where
  name : String
deriving DecidableEq, Repr

namespace Hierarchy

def empty : Hierarchy := ⟨[]⟩

def contains (h : Hierarchy) (name : String) : Bool := h.entries.any (·.name = name)

/-- Adds a type below its parent. A name that is taken is reported before a parent that is not
known. -/
def register (h : Hierarchy) (name : String) (parent : Option String) :
    Except RegistrationError Hierarchy :=
  if h.contains name then .error (.alreadyRegistered name)
  else
    match parent with
    | none => .ok ⟨⟨name, none⟩ :: h.entries⟩
    | some p =>
      if h.contains p then .ok ⟨⟨name, some p⟩ :: h.entries⟩ else .error (.unknownParent name p)

/-- Registers a list of types in order. -/
def registerAll (h : Hierarchy) : List (String × Option String) → Except RegistrationError Hierarchy
  | [] => .ok h
  | (name, parent) :: rest =>
    match h.register name parent with
    | .ok h => h.registerAll rest
    | .error e => .error e

def lookup (h : Hierarchy) (name : String) : Option ExceptionType :=
  if h.contains name then some ⟨name⟩ else none

def get (h : Hierarchy) (name : String) : Except UnknownType ExceptionType :=
  if h.contains name then .ok ⟨name⟩ else .error ⟨name⟩

def parentOf? (h : Hierarchy) (t : ExceptionType) : Option ExceptionType :=
  ((h.entries.find? (·.name = t.name)).bind (·.parent)).map ExceptionType.mk

/-- Follows parents for at most `n` steps. -/
def climb (h : Hierarchy) : Nat → ExceptionType → List ExceptionType
  | 0, t => [t]
  | n + 1, t =>
    match h.parentOf? t with
    | some p => t :: h.climb n p
    | none => [t]

/-- A type followed by its supertypes, nearest first. No chain is longer than the table. -/
def ancestors (h : Hierarchy) (t : ExceptionType) : List ExceptionType :=
  h.climb h.entries.length t

/-- Whether `sup` is above `name` in a table. What lies above an entry stands behind it. -/
def derives : List Entry → String → String → Bool
  | [], _, _ => false
  | e :: older, name, sup =>
    if e.name = name then
      match e.parent with
      | some p => p = sup || derives older p sup
      | none => false
    else derives older name sup

/-- Whether `sub` is `sup` or extends it, directly or through other types. A type that was never
registered is a subtype of itself only. -/
def isSubtype (h : Hierarchy) (sub sup : ExceptionType) : Bool :=
  sub = sup || derives h.entries sub.name sup.name

/-- The registered types with their parents, oldest first. -/
def toList (h : Hierarchy) : List (String × Option String) :=
  h.entries.reverse.map fun e => (e.name, e.parent)

def throwableName : String := "Throwable"

def exceptionName : String := "Exception"

def runtimeName : String := "RuntimeException"

def errorName : String := "Error"

def machineErrorName : String := "VirtualMachineError"

def linkageErrorName : String := "LinkageError"

def assertionErrorName : String := "AssertionError"

/-- The types that every program can use. -/
def builtinTypes : List (String × Option String) :=
  [ (throwableName, none),
    (exceptionName, some throwableName),
    (runtimeName, some exceptionName),
    (errorName, some throwableName),
    (machineErrorName, some errorName),
    ("OutOfMemoryError", some machineErrorName),
    ("StackOverflowError", some machineErrorName),
    ("InternalError", some machineErrorName),
    (linkageErrorName, some errorName),
    ("NoClassDefFoundError", some linkageErrorName),
    (assertionErrorName, some errorName),
    ("IOException", some exceptionName),
    ("FileNotFoundException", some "IOException"),
    ("UnknownHostException", some "IOException"),
    ("InterruptedException", some exceptionName),
    ("IllegalArgumentException", some runtimeName),
    ("IllegalStateException", some runtimeName),
    ("NullPointerException", some runtimeName),
    ("ArithmeticException", some runtimeName) ]

def builtin : Hierarchy :=
  ⟨(builtinTypes.map fun (name, parent) => ⟨name, parent⟩).reverse⟩

end Hierarchy

/-- The types that the policies refer to. -/
structure Roots where
  throwable : ExceptionType
  runtime : ExceptionType
  error : ExceptionType
  fatal : List ExceptionType
deriving DecidableEq, Repr

/-- The first root that is not registered is reported. -/
def Hierarchy.roots (h : Hierarchy) : Except UnknownType Roots := do
  let throwable ← h.get throwableName
  let runtime ← h.get runtimeName
  let error ← h.get errorName
  let machine ← h.get machineErrorName
  let assertion ← h.get assertionErrorName
  let linkage ← h.get linkageErrorName
  return ⟨throwable, runtime, error, [machine, assertion, linkage]⟩

end CheckedExceptions
