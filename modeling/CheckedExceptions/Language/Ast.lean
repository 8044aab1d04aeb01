import CheckedExceptions.Language.Tree

/-!
Programs as they are written: declarations, statements, expressions and patterns, each with the
part of the text it covers. A program is read off its syntax tree.
-/
namespace CheckedExceptions.Language

inductive Expr
  | ref (name : String) (extent : Extent)
  | this (extent : Extent)
  /-- The text includes the quotes. -/
  | string (text : String) (extent : Extent)
  | number (digits : String) (extent : Extent)
  | truth (value : Bool) (extent : Extent)
  | call (name : String) (args : List Expr) (extent : Extent)
  | new (name : String) (args : List Expr) (extent : Extent)
  | thisCall (args : List Expr) (extent : Extent)
  | methodCall (receiver : Expr) (name : String) (args : List Expr) (extent : Extent)
  | binary (operator : String) (left right : Expr) (extent : Extent)

inductive Pattern
  | typed (binder type : String) (extent : Extent)
  | bind (binder : String) (extent : Extent)
  | extractor (name : String) (args : List Pattern) (extent : Extent)

mutual

inductive Stmt
  | letBinding (name : String) (type : Option String) (value : Expr) (extent : Extent)
  | assign (name : String) (value : Expr) (extent : Extent)
  | raise (value : Expr) (extent : Extent)
  | returning (value : Expr) (extent : Extent)
  | ifElse (condition : Expr) (thenBlock : Block) (elseBranch : Option Stmt) (extent : Extent)
  | whileLoop (condition : Expr) (body : Block) (extent : Extent)
  | tryCatch (body : Block) (handlers : List Handler) (finalizer : Option Block) (extent : Extent)
  | block (b : Block)
  | expr (e : Expr)

inductive Block
  | mk (stmts : List Stmt) (extent : Extent)

inductive Handler
  | mk (pattern : Pattern) (guard : Option Expr) (body : Block) (extent : Extent)

end

inductive MarkerArgDecl
  | classLiteral (name : String)
  /-- The text includes the quotes. -/
  | string (text : String)
  | number (digits : String)
  | name (name : String)
deriving DecidableEq, Repr

def MarkerArgDecl.number? : MarkerArgDecl → Option String
  | number digits => some digits
  | _ => none

structure MarkerDecl where
  name : String
  typeArgs : List String
  args : List MarkerArgDecl
  extent : Extent
deriving DecidableEq, Repr

/-- The numbers in markers, in order. -/
def MarkerDecl.numbersAll (markers : List MarkerDecl) : List String :=
  markers.flatMap fun m => m.args.filterMap MarkerArgDecl.number?

structure Param where
  name : String
  type : String
deriving DecidableEq, Repr

/-- A function or a method. Its name has no dots, so it is the last part of a qualified name. -/
structure FuncDecl where
  markers : List MarkerDecl
  name : String
  params : List Param
  result : Option String
  body : Block
  extent : Extent
  undotted : '.' ∉ name.toList

def FuncDecl.mk? (markers : List MarkerDecl) (name : String) (params : List Param)
    (result : Option String) (body : Block) (x : Extent) : Option FuncDecl :=
  if undotted : '.' ∉ name.toList then some ⟨markers, name, params, result, body, x, undotted⟩
  else none

/-- A further constructor of a class. -/
structure CtorDecl where
  markers : List MarkerDecl
  params : List Param
  body : Block
  extent : Extent

mutual

inductive ClassDecl
  | mk (markers : List MarkerDecl) (name : String) (params : List Param)
      (ctorMarkers : List MarkerDecl) (parents : List String) (members : List Member)
      (extent : Extent)

inductive Member
  | func (f : FuncDecl)
  | ctor (c : CtorDecl)
  | classDecl (c : ClassDecl)
  | stmt (s : Stmt)

end

structure ExceptionDecl where
  name : String
  parent : Option String
  extent : Extent
deriving DecidableEq, Repr

inductive Item
  | exception (e : ExceptionDecl)
  | func (f : FuncDecl)
  | classDecl (c : ClassDecl)
  | stmt (s : Stmt)

structure Program where
  items : List Item
  /-- An empty program covers no part of the text. -/
  extent : Option Extent

namespace Ast

mutual

def expr? : Tree → Option Expr
  | .node .binary (some x) [left, .token op, right] => do
    return .binary op.text (← expr? left) (← expr? right) x
  | .node .ref (some x) [.token t] => some (.ref t.text x)
  | .node .string (some x) [.token t] => some (.string t.text x)
  | .node .number (some x) [.token t] => some (.number t.text x)
  | .node .trueLit (some x) [] => some (.truth true x)
  | .node .falseLit (some x) [] => some (.truth false x)
  | .node .thisRef (some x) [] => some (.this x)
  | .node .call (some x) [.token t] => some (.call t.text [] x)
  | .node .call (some x) [.token t, .node .args _ args] => do
    return .call t.text (← exprs? args) x
  | .node .newExpr (some x) [.token t] => some (.new t.text [] x)
  | .node .newExpr (some x) [.token t, .node .args _ args] => do
    return .new t.text (← exprs? args) x
  | .node .thisCall (some x) [] => some (.thisCall [] x)
  | .node .thisCall (some x) [.node .args _ args] => do return .thisCall (← exprs? args) x
  | .node .methodCall (some x) [receiver, .token t] => do
    return .methodCall (← expr? receiver) t.text [] x
  | .node .methodCall (some x) [receiver, .token t, .node .args _ args] => do
    return .methodCall (← expr? receiver) t.text (← exprs? args) x
  | _ => none

def exprs? : List Tree → Option (List Expr)
  | [] => some []
  | t :: ts => do return (← expr? t) :: (← exprs? ts)

end

mutual

def pattern? : Tree → Option Pattern
  | .node .typePattern (some x) [.token binder, .token type] =>
    some (.typed binder.text type.text x)
  | .node .bindPattern (some x) [.token binder] => some (.bind binder.text x)
  | .node .extractorPattern (some x) (.token name :: args) => do
    return .extractor name.text (← patterns? args) x
  | _ => none

def patterns? : List Tree → Option (List Pattern)
  | [] => some []
  | t :: ts => do return (← pattern? t) :: (← patterns? ts)

end

mutual

def stmt? : Tree → Option Stmt
  | .node .letStmt (some x) [.token name, value] => do
    return .letBinding name.text none (← expr? value) x
  | .node .letStmt (some x) [.token name, .token type, value] => do
    return .letBinding name.text (some type.text) (← expr? value) x
  | .node .assignStmt (some x) [.token name, value] => do
    return .assign name.text (← expr? value) x
  | .node .raiseStmt (some x) [value] => do return .raise (← expr? value) x
  | .node .returnStmt (some x) [value] => do return .returning (← expr? value) x
  | .node .ifStmt (some x) [condition, thenBlock] => do
    return .ifElse (← expr? condition) (← block? thenBlock) none x
  | .node .ifStmt (some x) [condition, thenBlock, elseBranch] => do
    return .ifElse (← expr? condition) (← block? thenBlock) (some (← stmt? elseBranch)) x
  | .node .whileStmt (some x) [condition, body] => do
    return .whileLoop (← expr? condition) (← block? body) x
  | .node .tryStmt (some x) (body :: rest) => do
    let (handlers, finalizer) ← handlers? rest
    return .tryCatch (← block? body) handlers finalizer x
  | .node .exprStmt (some _) [e] => do return .expr (← expr? e)
  | .node .block (some x) stmts => do return .block (.mk (← stmts? stmts) x)
  | _ => none

def block? : Tree → Option Block
  | .node .block (some x) stmts => do return .mk (← stmts? stmts) x
  | _ => none

def stmts? : List Tree → Option (List Stmt)
  | [] => some []
  | t :: ts => do return (← stmt? t) :: (← stmts? ts)

def handler? : Tree → Option Handler
  | .node .catchClause (some x) [pattern, body] => do
    return .mk (← pattern? pattern) none (← block? body) x
  | .node .catchClause (some x) [pattern, .node .guard _ [guard], body] => do
    return .mk (← pattern? pattern) (some (← expr? guard)) (← block? body) x
  | _ => none

/-- The catch clauses and the finalizer, which comes last if there is one. -/
def handlers? : List Tree → Option (List Handler × Option Block)
  | [] => some ([], none)
  | [.node .finallyClause _ [body]] => do return ([], some (← block? body))
  | t :: ts => do
    let handler ← handler? t
    let (handlers, finalizer) ← handlers? ts
    return (handler :: handlers, finalizer)

end

def name? : Tree → Option String
  | .token t => some t.text
  | .node .. => none

def markerArg? : Tree → Option MarkerArgDecl
  | .node .classLiteral _ [.token t] => some (.classLiteral t.text)
  | .node .stringArg _ [.token t] => some (.string t.text)
  | .node .numberArg _ [.token t] => some (.number t.text)
  | .node .nameArg _ [.token t] => some (.name t.text)
  | _ => none

def marker? : Tree → Option MarkerDecl
  | .node .marker (some x) [.token t] => some ⟨t.text, [], [], x⟩
  | .node .marker (some x) [.token t, .node .typeArgs _ types] => do
    return ⟨t.text, ← types.mapM name?, [], x⟩
  | .node .marker (some x) [.token t, .node .markerArgs _ args] => do
    return ⟨t.text, [], ← args.mapM markerArg?, x⟩
  | .node .marker (some x) [.token t, .node .typeArgs _ types, .node .markerArgs _ args] => do
    return ⟨t.text, ← types.mapM name?, ← args.mapM markerArg?, x⟩
  | _ => none

/-- The markers in front of a declaration, and its other parts. -/
def splitMarkers? : List Tree → Option (List MarkerDecl × List Tree)
  | .node .markers _ markers :: parts => do return (← markers.mapM marker?, parts)
  | parts => some ([], parts)

def param? : Tree → Option Param
  | .node .param _ [.token name, .token type] => some ⟨name.text, type.text⟩
  | _ => none

def func? (x : Extent) (parts : List Tree) : Option FuncDecl := do
  let (markers, parts) ← splitMarkers? parts
  match parts with
  | [.token name, .node .paramsDecl _ params, body] =>
    FuncDecl.mk? markers name.text (← params.mapM param?) none (← block? body) x
  | [.token name, .node .paramsDecl _ params, .token result, body] =>
    FuncDecl.mk? markers name.text (← params.mapM param?) (some result.text) (← block? body) x
  | _ => none

def ctor? (x : Extent) (parts : List Tree) : Option CtorDecl := do
  let (markers, parts) ← splitMarkers? parts
  match parts with
  | [.node .paramsDecl _ params, body] =>
    return ⟨markers, ← params.mapM param?, ← block? body, x⟩
  | _ => none

/-- The parts of a class declaration that have been read. -/
structure ClassParts where
  markers : List MarkerDecl := []
  name : String := ""
  params : List Param := []
  ctorMarkers : List MarkerDecl := []
  parents : List String := []
  members : List Member := []

def ClassParts.toDecl (p : ClassParts) (x : Extent) : ClassDecl :=
  .mk p.markers p.name p.params p.ctorMarkers p.parents p.members x

mutual

def member? : Tree → Option Member
  | .node .funcDef (some x) parts => do return .func (← func? x parts)
  | .node .ctorDef (some x) parts => do return .ctor (← ctor? x parts)
  | .node .classDef (some x) parts => do return .classDecl ((← classParts? parts).toDecl x)
  | t => do return .stmt (← stmt? t)

def members? : List Tree → Option (List Member)
  | [] => some []
  | t :: ts => do return (← member? t) :: (← members? ts)

def classParts? : List Tree → Option ClassParts
  | [] => some {}
  | .token t :: parts => do return { ← classParts? parts with name := t.text }
  | .node .markers _ markers :: parts => do
    return { ← classParts? parts with markers := ← markers.mapM marker? }
  | .node .paramsDecl _ params :: parts => do
    return { ← classParts? parts with params := ← params.mapM param? }
  | .node .ctorMarkers _ markers :: parts => do
    return { ← classParts? parts with ctorMarkers := ← markers.mapM marker? }
  | .node .extendsClause _ parents :: parts => do
    return { ← classParts? parts with parents := ← parents.mapM name? }
  | .node .classBody _ members :: parts => do
    return { ← classParts? parts with members := ← members? members }
  | _ => none

end

def item? : Tree → Option Item
  | .node .exceptionDecl (some x) [.token name] => some (.exception ⟨name.text, none, x⟩)
  | .node .exceptionDecl (some x) [.token name, .token parent] =>
    some (.exception ⟨name.text, some parent.text, x⟩)
  | .node .funcDef (some x) parts => do return .func (← func? x parts)
  | .node .classDef (some x) parts => do return .classDecl ((← classParts? parts).toDecl x)
  | t => do return .stmt (← stmt? t)

end Ast

/-- The program that a syntax tree stands for. Every tree of a text is one of a program. -/
def Program.ofTree? : Tree → Option Program
  | .node .start x items => do return ⟨← items.mapM Ast.item?, x⟩
  | _ => none

end CheckedExceptions.Language
