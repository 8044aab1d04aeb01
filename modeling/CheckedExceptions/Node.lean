import CheckedExceptions.Symbol

/-!
The typed program tree. Units, classes and definitions are propagation points, `tryCatch` is a
catch point, raises and invocations are throw sites. Every other node only has parts, which are
visited in order; its form says what it is. Trees are built by others, so a place may be empty, and
may even hold a value that is no node.
-/
namespace CheckedExceptions

/-- The value of a literal; `other` stands for values of no interest here. -/
inductive Constant
  | text (s : String)
  | number (n : Int)
  | truth (b : Bool)
  | other
deriving DecidableEq, Repr

/-- What a node without an effect of its own is. -/
inductive Form
  | block | ifElse | whileLoop | returning
  | letBinding (name : String)
  | assignment (name : String)
  | binary (operator : String)
  | reference (name : String) (type : Option ExceptionType)
  | literal (value : Constant)
  | typePattern (type : ExceptionType) (binder : Option String)
  /-- The first part is the invocation of the extractor, if it was resolved. -/
  | extractorPattern (name : String) (resolved : Bool)
  | pattern
  | host (kind : String)
  | bare
deriving DecidableEq, Repr

/-- How an invocation is written. The first operand of `onReceiver` is the receiver. -/
inductive Invocation
  | call | onReceiver | new
deriving DecidableEq, Repr

mutual

inductive Node
  | absent
  | foreign (typeName : String)
  | unit (body : List Node) (span : Span)
  /-- The body holds the code of the primary constructor `ctor` and the member definitions. -/
  | classDef (symbol ctor : Symbol) (body : List Node) (span : Span)
  | funcDef (symbol : Symbol) (params : List String) (body : List Node) (span : Span)
  | tryCatch (body : Node) (clauses : List Clause) (finalizer : Node) (span : Span)
  | clause (c : Clause)
  | raise (value : Node) (type : Option ExceptionType) (span : Span)
  | invoke (how : Invocation) (symbol : Symbol) (operands : List Node)
      (type : Option ExceptionType) (span : Span)
  | plain (form : Form) (parts : List Node) (span : Span)

/-- A catch clause; its guard is absent if it has none. -/
inductive Clause
  | mk (pattern guard body : Node) (span : Span)

end

instance : Inhabited Node := ⟨.absent⟩

namespace Clause

def pattern : Clause → Node
  | mk pattern _ _ _ => pattern

def guard : Clause → Node
  | mk _ guard _ _ => guard

def body : Clause → Node
  | mk _ _ body _ => body

end Clause

namespace Node

def isAbsent : Node → Bool
  | absent => true
  | _ => false

/-- The nodes that are there. -/
def present (nodes : List Node) : List Node := nodes.filter (!·.isAbsent)

def children : Node → List Node
  | absent | foreign _ => []
  | unit body _ | classDef _ _ body _ | funcDef _ _ body _ => body
  | tryCatch body clauses finalizer _ => body :: clauses.map clause ++ present [finalizer]
  | clause (.mk pattern guard body _) => present [pattern, guard, body]
  | raise value _ _ => [value]
  | invoke _ _ operands _ _ => operands
  | plain _ parts _ => parts

/-- The exception type written on a node, if it has a place for one. -/
def ownType? : Node → Option ExceptionType
  | raise _ type _ | invoke _ _ _ type _ => type
  | plain (.reference _ type) _ _ => type
  | plain (.typePattern type _) _ _ => some type
  | _ => none

/-- The type of what a raise throws: its own, or else the one written on the raised value. -/
def thrownType? (value : Node) (type : Option ExceptionType) : Option ExceptionType :=
  type <|> value.ownType?

end Node

namespace Clause

def hasGuard (c : Clause) : Bool := !c.guard.isAbsent

/-- The type that an unguarded clause catches by a plain type test. -/
def caught? (c : Clause) : Option ExceptionType :=
  match c.guard, c.pattern with
  | .absent, .plain (.typePattern type _) _ _ => some type
  | _, _ => none

/-- What a clause catches is known from the program text alone. -/
def isDecidable (c : Clause) : Bool := c.caught?.isSome

/-- The types caught by the decidable clauses, each where it occurs first. -/
def caughtTypes (clauses : List Clause) : List ExceptionType :=
  (clauses.filterMap caught?).eraseDups

end Clause

end CheckedExceptions
