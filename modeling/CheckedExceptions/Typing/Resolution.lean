import CheckedExceptions.Node
import CheckedExceptions.Typing.Environment
import CheckedExceptions.Typing.Lineage

/-!
The typed tree of a program: names are resolved against the declarations, raised values get their
exception types, and local names get types from the scopes around them. Scopes are closed again
when something that they enclose cannot be resolved.
-/
namespace CheckedExceptions.Typing

open CheckedExceptions.Language

abbrev Resolving := EStateM Error Environment

/-- What does not change while a program is resolved. -/
structure Context extends Site where
  declarations : Declarations

namespace Context

variable (c : Context)

def lift {α : Type} (x : Except Error α) : Resolving α := MonadExcept.ofExcept x

def fault {α : Type} (cause : Cause) (x : Extent) : Resolving α := throw (.program cause (c.span x))

/-- Runs an action in a scope of its own. -/
def inScope {α : Type} (action : Resolving α) : Resolving α := fun env =>
  match action env.push with
  | .ok a env => .ok a env.pop
  | .error e env => .error e env.pop

def bind (name : String) (type : Option ValueType) : Resolving Unit := modify (·.bind name type)

/-- Exception types come before classes. -/
def namedType (name : String) : Option ValueType :=
  match c.hierarchy.lookup name with
  | some t => some (.exception t)
  | none => (c.declarations.class? name).map .classType

def resultOf (f : Callable) : Option ValueType := f.result.bind c.namedType

/-- Binds parameters by their declared types. -/
def bindParams : List Param → Resolving Unit
  | [] => return
  | p :: ps => do
    bind p.name (c.namedType p.type)
    bindParams ps

/-- The primary constructor, unless its number of parameters differs from that of the arguments and
another constructor's does not. -/
def ctorOfArity (info : ClassEntry) (arity : Nat) : Symbol :=
  if arity = info.ctorParams.length then info.ctor
  else
    match info.otherCtors.find? (·.params.length = arity) with
    | some other => other.symbol
    | none => info.ctor

/-- The node of an expression and its static type. -/
abbrev Typed := Node × Option ValueType

/-- A new exception or a new object of a class. -/
def construct (name : String) (args : List Node) (x : Extent) : Except Error Typed :=
  match c.hierarchy.lookup name with
  | some t =>
    let ctor : Symbol := ⟨s!"{name}.{Site.ctorSuffix}", .constructor, []⟩
    .ok (.invoke .new ctor args (some t) (c.span x), some (.exception t))
  | none =>
    match c.declarations.class? name with
    | some info =>
      .ok (.invoke .new (ctorOfArity info args.length) args none (c.span x), some (.classType info))
    | none => c.fail (.unknownClass name) x

/-- The name `this` without a binding, as an implicit receiver. -/
def thisNode (x : Extent) : Node := .plain (.reference "this" none) [] (c.span x)

/-- The method that a plain call means in the classes around it, innermost first. -/
def findInClasses (name : String) : List ClassEntry → Except Error (Option Callable)
  | [] => .ok none
  | info :: enclosing => do
    match ← c.declarations.methodOf c.toSite info name with
    | some m => return some m
    | none => findInClasses name enclosing

/-- A call by name: of a method of an enclosing class, else of a function, else a new object. -/
def callByName (enclosing : List ClassEntry) (name : String) (args : List Node) (x : Extent) :
    Except Error Typed := do
  match ← c.findInClasses name enclosing with
  | some m =>
    let type := c.resultOf m
    return (.invoke .onReceiver m.symbol (c.thisNode x :: args) (ValueType.exception? type)
      (c.span x), type)
  | none =>
    match c.declarations.function? name with
    | some f =>
      let type := c.resultOf f
      return (.invoke .call f.symbol args (ValueType.exception? type) (c.span x), type)
    | none =>
      if (c.declarations.class? name).isSome || c.hierarchy.contains name then
        c.construct name args x
      else c.fail (.unresolvedCall name) x

/-- The type of a name: that of its binding if it is an exception type; else, for `this`, the class
around it; else whatever it is bound to, or the class of that name. -/
def nameType (enclosing : List ClassEntry) (name : String) (bound : Option (Option ValueType)) :
    Option ValueType :=
  match ValueType.exception? bound.join, name == "this", enclosing with
  | some t, _, _ => some (.exception t)
  | none, true, info :: _ => some (.classType info)
  | none, _, _ =>
    match bound with
    | some type => type
    | none => (c.declarations.class? name).map .classType

/-- The type of `this` inside classes is the innermost of them. -/
def thisType (enclosing : List ClassEntry) (bound : Option (Option ValueType)) : Option ValueType :=
  match enclosing with
  | info :: _ => some (.classType info)
  | [] => c.nameType [] "this" bound

mutual

def resolveExpr (enclosing : List ClassEntry) : Expr → Resolving Typed
  | .ref name x => do
    let bound := (← get).lookup name
    return (.plain (.reference name (ValueType.exception? bound.join)) [] (c.span x),
      c.nameType enclosing name bound)
  | .this x => do
    -- The node has no type of its own, whatever `this` is bound to.
    let bound := (← get).lookup "this"
    return (c.thisNode x, c.thisType enclosing bound)
  | .string text x => return (.plain (.literal (.text (stringValue text))) [] (c.span x), none)
  | .number digits x => do
    let n ← lift (numberValue digits)
    return (.plain (.literal (.number n)) [] (c.span x), none)
  | .truth value x => return (.plain (.literal (.truth value)) [] (c.span x), none)
  | .call name args x => do
    let args ← resolveArgs enclosing args
    lift (c.callByName enclosing name args x)
  | .new name args x => do
    let args ← resolveArgs enclosing args
    lift (c.construct name args x)
  | .thisCall args x =>
    match enclosing with
    | [] => c.fault .thisCallOutsideClass x
    | info :: _ => do
      let args ← resolveArgs enclosing args
      return (.invoke .call (ctorOfArity info args.length) args none (c.span x), none)
  | .methodCall receiver name args x => do
    let (receiver, type) ← resolveExpr enclosing receiver
    match ValueType.class? type with
    | none => c.fault (.unknownReceiver name) x
    | some owner =>
      match ← lift (c.declarations.methodOf c.toSite owner name) with
      | none => c.fault (.unknownMethod owner.name name) x
      | some m =>
        let args ← resolveArgs enclosing args
        let type := c.resultOf m
        return (.invoke .onReceiver m.symbol (receiver :: args) (ValueType.exception? type)
          (c.span x), type)
  | .binary operator left right x => do
    let (left, _) ← resolveExpr enclosing left
    let (right, _) ← resolveExpr enclosing right
    return (.plain (.binary operator) [left, right] (c.span x), none)

def resolveArgs (enclosing : List ClassEntry) : List Expr → Resolving (List Node)
  | [] => return []
  | e :: es => do
    let (node, _) ← resolveExpr enclosing e
    return node :: (← resolveArgs enclosing es)

end

/-- Binds what a catch clause catches; an underscore binds nothing. -/
def bindCaught (binder : String) (type : ExceptionType) : Resolving (Option String) := do
  if binder = "_" then return none
  bind binder (some (.exception type))
  return some binder

mutual

/-- A pattern without a type catches every throwable. -/
def resolvePattern : Pattern → Resolving Node
  | .typed binder type x =>
    match c.hierarchy.lookup type with
    | none => c.fault (.unknownCaughtType type) x
    | some t => do return .plain (.typePattern t (← bindCaught binder t)) [] (c.span x)
  | .bind binder x =>
    match c.hierarchy.get Hierarchy.throwableName with
    | .error e => throw (.missingType e)
    | .ok t => do return .plain (.typePattern t (← bindCaught binder t)) [] (c.span x)
  | .extractor name args x => do
    let args ← resolvePatterns args
    match c.declarations.function? name with
    | some f =>
      let call := .invoke .call f.symbol [] none (c.span x)
      return .plain (.extractorPattern name true) (call :: args) (c.span x)
    | none => return .plain (.extractorPattern name false) args (c.span x)

def resolvePatterns : List Pattern → Resolving (List Node)
  | [] => return []
  | p :: ps => do
    let node ← resolvePattern p
    return node :: (← resolvePatterns ps)

end

def resolveGuard (enclosing : List ClassEntry) : Option Expr → Resolving Node
  | none => return .absent
  | some e => do return (← c.resolveExpr enclosing e).1

/-- The type of a new local name: the declared one if there is one, else that of its value. -/
def letType (declared : Option String) (value : Option ValueType) : Option ValueType :=
  match declared with
  | some name => c.namedType name
  | none => value

mutual

/-- Resolves a statement. The branch of a conditional that is taken last is resolved first. -/
def resolveStmt (enclosing : List ClassEntry) : Stmt → Resolving Node
  | .letBinding name declared value x => do
    let (value, type) ← c.resolveExpr enclosing value
    bind name (c.letType declared type)
    return .plain (.letBinding name) [value] (c.span x)
  | .assign name value x => do
    let (value, _) ← c.resolveExpr enclosing value
    return .plain (.assignment name) [value] (c.span x)
  | .raise value x => do
    let (value, type) ← c.resolveExpr enclosing value
    match ValueType.exception? type with
    | none => c.fault .untypedRaise x
    | some t => return .raise value (some t) (c.span x)
  | .returning value x => do
    let (value, _) ← c.resolveExpr enclosing value
    return .plain .returning [value] (c.span x)
  | .ifElse condition thenBlock none x => do
    let (condition, _) ← c.resolveExpr enclosing condition
    let thenNode ← resolveBlock enclosing thenBlock
    return .plain .ifElse [condition, thenNode] (c.span x)
  | .ifElse condition thenBlock (some elseBranch) x => do
    let elseNode ← resolveStmt enclosing elseBranch
    let (condition, _) ← c.resolveExpr enclosing condition
    let thenNode ← resolveBlock enclosing thenBlock
    return .plain .ifElse [condition, thenNode, elseNode] (c.span x)
  | .whileLoop condition body x => do
    let (condition, _) ← c.resolveExpr enclosing condition
    let body ← resolveBlock enclosing body
    return .plain .whileLoop [condition, body] (c.span x)
  | .tryCatch body handlers none x => do
    let body ← resolveBlock enclosing body
    let clauses ← resolveHandlers enclosing handlers
    return .tryCatch body clauses .absent (c.span x)
  | .tryCatch body handlers (some finalizer) x => do
    let body ← resolveBlock enclosing body
    let clauses ← resolveHandlers enclosing handlers
    let finalizer ← resolveBlock enclosing finalizer
    return .tryCatch body clauses finalizer (c.span x)
  | .block b => resolveBlock enclosing b
  | .expr e => do return (← c.resolveExpr enclosing e).1

def resolveStmts (enclosing : List ClassEntry) : List Stmt → Resolving (List Node)
  | [] => return []
  | s :: ss => do
    let node ← resolveStmt enclosing s
    return node :: (← resolveStmts enclosing ss)

def resolveBlock (enclosing : List ClassEntry) : Block → Resolving Node
  | .mk stmts x => do
    let stmts ← inScope (resolveStmts enclosing stmts)
    return .plain .block stmts (c.span x)

def resolveHandler (enclosing : List ClassEntry) : Handler → Resolving Clause
  | .mk pattern guard body x => inScope do
    let pattern ← c.resolvePattern pattern
    let guard ← c.resolveGuard enclosing guard
    let body ← resolveBlock enclosing body
    return .mk pattern guard body (c.span x)

def resolveHandlers (enclosing : List ClassEntry) : List Handler → Resolving (List Clause)
  | [] => return []
  | h :: hs => do
    let clause ← resolveHandler enclosing h
    return clause :: (← resolveHandlers enclosing hs)

end

/-- The statements of a callable share the scope of its parameters. -/
def resolveFunction (enclosing : List ClassEntry) (info : Callable) (params : List Param)
    (body : Block) (x : Extent) : Resolving Node :=
  match body with
  | .mk stmts _ => do
    let body ← inScope do
      c.bindParams params
      c.resolveStmts enclosing stmts
    return .funcDef info.symbol info.params body (c.span x)

mutual

/-- Resolves a class by its entry in the declarations. -/
def resolveClass (enclosing : List ClassEntry) : ClassDecl → Resolving Node
  | .mk _ name params _ _ members x => do
    let info ← lift (found (.classType name) (c.declarations.class? name))
    let body ← inScope do
      c.bindParams params
      resolveMembers (info :: enclosing) info 0 members
    return .classDef info.symbol info.ctor body (c.span x)

/-- Resolves the members of a class from the one at `index` on. -/
def resolveMembers (enclosing : List ClassEntry) (info : ClassEntry) :
    Nat → List Member → Resolving (List Node)
  | _, [] => return []
  | index, .func f :: ms => do
    let method ← lift (info.methodAt index)
    let node ← c.resolveFunction enclosing method f.params f.body f.extent
    return node :: (← resolveMembers enclosing info (index + 1) ms)
  | index, .ctor k :: ms => do
    let ctor ← lift (info.otherCtorAt index)
    let node ← c.resolveFunction enclosing ctor k.params k.body k.extent
    return node :: (← resolveMembers enclosing info (index + 1) ms)
  | index, .classDecl k :: ms => do
    let node ← resolveClass enclosing k
    return node :: (← resolveMembers enclosing info (index + 1) ms)
  | index, .stmt s :: ms => do
    let node ← c.resolveStmt enclosing s
    return node :: (← resolveMembers enclosing info (index + 1) ms)

end

/-- Exception declarations leave nothing in the tree. -/
def resolveItems : List Item → Resolving (List Node)
  | [] => return []
  | .exception _ :: items => resolveItems items
  | .func f :: items => do
    let info ← lift (found (.function f.name) (c.declarations.function? f.name))
    let node ← c.resolveFunction [] info f.params f.body f.extent
    return node :: (← resolveItems items)
  | .classDecl k :: items => do
    let node ← c.resolveClass [] k
    return node :: (← resolveItems items)
  | .stmt s :: items => do
    let node ← c.resolveStmt [] s
    return node :: (← resolveItems items)

end Context

end CheckedExceptions.Typing
