import CheckedExceptions.Proofs.Typing.Matching

/-!
What can be seen from where. The bindings that are visible at a place of the text are listed nearest
first, by recursion over the text alone: a block, a catch clause, a function or a class sees what is
visible around it and adds its own bindings, and behind it they are gone. Resolution gives each name
the type of the first binding of the name in that list.
-/
namespace CheckedExceptions

namespace Node

/-- A reference that stands for a name of the text. One to `this` without a type may stand for the
word `this` as well, or for a receiver that is not written. -/
def isName : Node → Bool
  | plain (.reference name type) _ _ => name != "this" || type.isSome
  | _ => false

/-- The names in a tree, in the order of the text. -/
def names (n : Node) : List Node := n.preorder.filter isName

theorem names_eq_flatMap {n : Node} (h : n.isName = false) :
    n.names = n.children.flatMap names := by
  by_cases habsent : n = .absent
  · subst habsent
    rfl
  · rw [names, preorder_eq habsent, List.filter_cons_of_neg (by simp [h]), List.filter_flatMap]
    rfl

/-- An empty place has no names. -/
theorem flatMap_names_present (ns : List Node) :
    (present ns).flatMap names = ns.flatMap names := by
  induction ns with
  | nil => rfl
  | cons n ns ih =>
    rw [List.flatMap_cons, ← ih]
    cases n <;> rfl

theorem names_clause (pattern guard body : Node) (span : Span) :
    (clause (.mk pattern guard body span)).names =
      pattern.names ++ guard.names ++ body.names := by
  rw [names_eq_flatMap rfl, children, flatMap_names_present]
  simp

theorem names_tryCatch (body : Node) (clauses : List Clause) (finalizer : Node) (span : Span) :
    (tryCatch body clauses finalizer span).names =
      body.names ++ (clauses.map clause).flatMap names ++ finalizer.names := by
  rw [names_eq_flatMap rfl, children, List.cons_append, List.flatMap_cons, List.flatMap_append,
    flatMap_names_present, List.flatMap_singleton, List.append_assoc]

end Node

namespace Language

def Stmt.isLet : Stmt → Bool
  | .letBinding _ _ _ _ => true
  | _ => false

/-- A member that is a statement may bind a name for the members behind it. -/
def Member.statement? : Member → Option Stmt
  | .stmt s => some s
  | _ => none

def Item.statement? : Item → Option Stmt
  | .stmt s => some s
  | _ => none

end Language

namespace Typing

open CheckedExceptions.Language

/-- The bindings that can be seen, nearest first. -/
def Environment.visible (env : Environment) : LocalScope := env.scopes.flatten

/-- The scopes are searched as if they were one. -/
theorem Environment.lookup_eq_visible (env : Environment) (name : String) :
    env.lookup name = env.visible.lookup name := by
  obtain ⟨scopes⟩ := env
  change scopes.findSome? (·.lookup name) = scopes.flatten.lookup name
  induction scopes with
  | nil => rfl
  | cons scope outer ih =>
    rw [List.findSome?_cons, List.flatten_cons, List.lookup_append, ih]
    cases scope.lookup name <;> rfl

@[simp] theorem Environment.visible_append (added scope : LocalScope) (outer : List LocalScope) :
    Environment.visible ⟨(added ++ scope) :: outer⟩ =
      added ++ Environment.visible ⟨scope :: outer⟩ := by
  simp [visible]

/-- A name in the text, with the bindings that are visible where it stands. -/
structure Use where
  name : String
  extent : Extent
  visible : LocalScope

namespace Context

variable (c : Context)

/-- The name with the type of its nearest visible binding, if that is an exception type. -/
def nodeOf (u : Use) : Node :=
  .plain (.reference u.name (ValueType.exception? (u.visible.lookup u.name).join)) []
    (c.span u.extent)

/-- The names that resolution is to make of the uses. -/
def namesOf (us : List Use) : List Node := (us.map c.nodeOf).filter Node.isName

@[simp] theorem namesOf_append (us us' : List Use) :
    c.namesOf (us ++ us') = c.namesOf us ++ c.namesOf us' := by
  rw [namesOf, List.map_append, List.filter_append]
  rfl

section Uses

/-- What a call by name returns. -/
def callType (enclosing : List ClassEntry) (name : String) : Option ValueType :=
  match c.findInClasses name enclosing with
  | .ok (some m) => c.resultOf m
  | .ok none =>
    match c.declarations.function? name with
    | some f => c.resultOf f
    | none => c.namedType name
  | .error _ => none

/-- What a method returns that is called on a value of the given type. -/
def methodType (name : String) (receiver : Option ValueType) : Option ValueType :=
  match ValueType.class? receiver with
  | some owner =>
    match c.declarations.methodOf c.toSite owner name with
    | .ok (some m) => c.resultOf m
    | _ => none
  | none => none

/-- The static type of a value, as the visible bindings have it. -/
def valueType (enclosing : List ClassEntry) (visible : LocalScope) : Expr → Option ValueType
  | .ref name _ => c.nameType enclosing name (visible.lookup name)
  | .this _ =>
    match enclosing with
    | info :: _ => some (.classType info)
    | [] => c.nameType [] "this" (visible.lookup "this")
  | .string _ _ | .number _ _ | .truth _ _ | .thisCall _ _ | .binary _ _ _ _ => none
  | .call name _ _ => c.callType enclosing name
  | .new name _ _ => c.namedType name
  | .methodCall receiver name _ _ => c.methodType name (valueType enclosing visible receiver)

/-- What a statement binds for the statements behind it. -/
def bound (enclosing : List ClassEntry) (visible : LocalScope) : Stmt → LocalScope
  | .letBinding name declared value _ =>
    [(name, c.letType declared (c.valueType enclosing visible value))]
  | _ => []

/-- What statements bind one after the other, newest first. -/
def boundAll (enclosing : List ClassEntry) (visible : LocalScope) : List Stmt → LocalScope
  | [] => []
  | s :: ss =>
    let added := c.bound enclosing visible s
    boundAll enclosing (added ++ visible) ss ++ added

/-- What a pattern binds to a caught exception. -/
def caughtAs (binder : String) (type : ExceptionType) : LocalScope :=
  if binder = "_" then [] else [(binder, some (.exception type))]

mutual

/-- What a pattern binds, newest first. -/
def caught : Pattern → LocalScope
  | .typed binder type _ => caughtAs binder ⟨type⟩
  | .bind binder _ => caughtAs binder ⟨Hierarchy.throwableName⟩
  | .extractor _ args _ => caughtAll args

def caughtAll : List Pattern → LocalScope
  | [] => []
  | p :: ps => caughtAll ps ++ caught p

end

/-- What parameters bind, the last one first. -/
def parameters (params : List Param) : LocalScope :=
  (params.map fun p => (p.name, c.namedType p.type)).reverse

mutual

/-- The names in an expression. -/
def exprUses (visible : LocalScope) : Expr → List Use
  | .ref name x => [⟨name, x, visible⟩]
  | .this _ | .string _ _ | .number _ _ | .truth _ _ => []
  | .call _ args _ | .new _ args _ | .thisCall args _ => argsUses visible args
  | .methodCall receiver _ args _ => exprUses visible receiver ++ argsUses visible args
  | .binary _ left right _ => exprUses visible left ++ exprUses visible right

def argsUses (visible : LocalScope) : List Expr → List Use
  | [] => []
  | e :: es => exprUses visible e ++ argsUses visible es

end

def guardUses (visible : LocalScope) : Option Expr → List Use
  | none => []
  | some e => exprUses visible e

mutual

/-- The names in a statement. -/
def stmtUses (enclosing : List ClassEntry) (visible : LocalScope) : Stmt → List Use
  | .letBinding _ _ e _ | .assign _ e _ | .raise e _ | .returning e _ | .expr e =>
    exprUses visible e
  | .ifElse condition thenBlock none _ =>
    exprUses visible condition ++ blockUses enclosing visible thenBlock
  | .ifElse condition thenBlock (some elseBranch) _ =>
    exprUses visible condition ++ blockUses enclosing visible thenBlock ++
      stmtUses enclosing visible elseBranch
  | .whileLoop condition body _ =>
    exprUses visible condition ++ blockUses enclosing visible body
  | .tryCatch body handlers none _ =>
    blockUses enclosing visible body ++ handlersUses enclosing visible handlers
  | .tryCatch body handlers (some finalizer) _ =>
    blockUses enclosing visible body ++ handlersUses enclosing visible handlers ++
      blockUses enclosing visible finalizer
  | .block b => blockUses enclosing visible b

/-- The statements behind a statement see what it binds. -/
def stmtsUses (enclosing : List ClassEntry) (visible : LocalScope) : List Stmt → List Use
  | [] => []
  | s :: ss =>
    stmtUses enclosing visible s ++
      stmtsUses enclosing (c.bound enclosing visible s ++ visible) ss

def blockUses (enclosing : List ClassEntry) (visible : LocalScope) : Block → List Use
  | .mk stmts _ => stmtsUses enclosing visible stmts

/-- The guard and the body of a catch clause see what its pattern binds. -/
def handlerUses (enclosing : List ClassEntry) (visible : LocalScope) : Handler → List Use
  | .mk pattern guard body _ =>
    guardUses (caught pattern ++ visible) guard ++
      blockUses enclosing (caught pattern ++ visible) body

def handlersUses (enclosing : List ClassEntry) (visible : LocalScope) : List Handler → List Use
  | [] => []
  | h :: hs => handlerUses enclosing visible h ++ handlersUses enclosing visible hs

end

/-- The body of a function sees its parameters. -/
def functionUses (enclosing : List ClassEntry) (visible : LocalScope) (params : List Param)
    (body : Block) : List Use :=
  c.blockUses enclosing (c.parameters params ++ visible) body

mutual

/-- The members of a class see its parameters, and the statements among the members in front of
them. -/
def classUses (enclosing : List ClassEntry) (visible : LocalScope) (outer : Option String) :
    ClassDecl → List Use
  | .mk markers name params ctorMarkers parents members x =>
    membersUses
      (classEntry c.toSite outer (.mk markers name params ctorMarkers parents members x) ::
        enclosing) (c.parameters params ++ visible) (qualifiedName outer name) members

def membersUses (enclosing : List ClassEntry) (visible : LocalScope) (owner : String) :
    List Member → List Use
  | [] => []
  | .func f :: ms =>
    c.functionUses enclosing visible f.params f.body ++ membersUses enclosing visible owner ms
  | .ctor k :: ms =>
    c.functionUses enclosing visible k.params k.body ++ membersUses enclosing visible owner ms
  | .classDecl k :: ms =>
    classUses enclosing visible (some owner) k ++ membersUses enclosing visible owner ms
  | .stmt s :: ms =>
    c.stmtUses enclosing visible s ++
      membersUses enclosing (c.bound enclosing visible s ++ visible) owner ms

end

/-- The names in a program. -/
def itemsUses (visible : LocalScope) : List Item → List Use
  | [] => []
  | .exception _ :: items => itemsUses visible items
  | .func f :: items => c.functionUses [] visible f.params f.body ++ itemsUses visible items
  | .classDecl k :: items => c.classUses [] visible none k ++ itemsUses visible items
  | .stmt s :: items =>
    c.stmtUses [] visible s ++ itemsUses (c.bound [] visible s ++ visible) items

end Uses

end Context

end Typing

end CheckedExceptions
