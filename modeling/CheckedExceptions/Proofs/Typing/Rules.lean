import CheckedExceptions.Typing.Program

/-!
The rules of resolution. A rule says from which scopes, and under which conditions, a part of a
program has a node, and what is bound after it. Expressions, blocks, catch clauses, functions and
classes leave the scopes as they are; statements and patterns bind names in the innermost one. What
resolving does is read off these rules: a run that ends well follows them, and what they allow is
what a run gives.
-/
namespace CheckedExceptions.Typing

open CheckedExceptions.Language

namespace Environment

/-- Binds what a catch clause catches; an underscore binds nothing. -/
def bindCaught (env : Environment) (binder : String) (t : ExceptionType) : Environment :=
  if binder = "_" then env else env.bind binder (some (.exception t))

@[simp] theorem pop_bind (env : Environment) (name : String) (type : Option ValueType) :
    (env.bind name type).pop = env.pop := by
  obtain ⟨_ | ⟨scope, outer⟩⟩ := env <;> rfl

@[simp] theorem pop_bindCaught (env : Environment) (binder : String) (t : ExceptionType) :
    (env.bindCaught binder t).pop = env.pop := by
  unfold bindCaught
  split
  · rfl
  · exact env.pop_bind binder _

end Environment

/-- The name of what a catch clause catches. -/
def caughtName (binder : String) : Option String := if binder = "_" then none else some binder

namespace Context

variable (c : Context)

/-- The scopes after the parameters are bound. -/
def withParams : List Param → Environment → Environment
  | [], env => env
  | p :: ps, env => withParams ps (env.bind p.name (c.namedType p.type))

@[simp] theorem pop_withParams (params : List Param) (env : Environment) :
    (c.withParams params env).pop = env.pop := by
  induction params generalizing env with
  | nil => rfl
  | cons p ps ih => rw [withParams, ih, Environment.pop_bind]

/-- A new exception, or a new object of a declared class. -/
inductive Constructs (name : String) (args : List Node) (x : Extent) : Typed → Prop
  | exception {t : ExceptionType} (hlookup : c.hierarchy.lookup name = some t) :
      Constructs name args x
        (.invoke .new ⟨s!"{name}.{Site.ctorSuffix}", .constructor, []⟩ args (some t) (c.span x),
          some (.exception t))
  | object {info : ClassEntry} (hlookup : c.hierarchy.lookup name = none)
      (hclass : c.declarations.class? name = some info) :
      Constructs name args x
        (.invoke .new (ctorOfArity info args.length) args none (c.span x), some (.classType info))

/-- A call of a method of the classes around it, else of a function, else a new object. -/
inductive Calls (enclosing : List ClassEntry) (name : String) (args : List Node) (x : Extent) :
    Typed → Prop
  | method {m : Callable} (hfound : c.findInClasses name enclosing = .ok (some m)) :
      Calls enclosing name args x
        (.invoke .onReceiver m.symbol (c.thisNode x :: args) (ValueType.exception? (c.resultOf m))
          (c.span x), c.resultOf m)
  | function {f : Callable} (hfound : c.findInClasses name enclosing = .ok none)
      (hfunction : c.declarations.function? name = some f) :
      Calls enclosing name args x
        (.invoke .call f.symbol args (ValueType.exception? (c.resultOf f)) (c.span x), c.resultOf f)
  | new {typed : Typed} (hfound : c.findInClasses name enclosing = .ok none)
      (hfunction : c.declarations.function? name = none)
      (hnew : c.Constructs name args x typed) : Calls enclosing name args x typed

mutual

inductive ResolvesExpr (enclosing : List ClassEntry) (env : Environment) : Expr → Typed → Prop
  | ref {name : String} {x : Extent} :
      ResolvesExpr enclosing env (.ref name x)
        (.plain (.reference name (ValueType.exception? (env.lookup name).join)) [] (c.span x),
          c.nameType enclosing name (env.lookup name))
  | this {x : Extent} :
      ResolvesExpr enclosing env (.this x)
        (c.thisNode x, c.thisType enclosing (env.lookup "this"))
  | string {text : String} {x : Extent} :
      ResolvesExpr enclosing env (.string text x)
        (.plain (.literal (.text (stringValue text))) [] (c.span x), none)
  | number {digits : String} {x : Extent} {n : Nat} (hvalue : numberValue digits = .ok n) :
      ResolvesExpr enclosing env (.number digits x)
        (.plain (.literal (.number n)) [] (c.span x), none)
  | truth {value : Bool} {x : Extent} :
      ResolvesExpr enclosing env (.truth value x)
        (.plain (.literal (.truth value)) [] (c.span x), none)
  | call {name : String} {args : List Expr} {x : Extent} {nodes : List Node} {typed : Typed}
      (hargs : ResolvesArgs enclosing env args nodes)
      (hcall : c.Calls enclosing name nodes x typed) :
      ResolvesExpr enclosing env (.call name args x) typed
  | new {name : String} {args : List Expr} {x : Extent} {nodes : List Node} {typed : Typed}
      (hargs : ResolvesArgs enclosing env args nodes) (hnew : c.Constructs name nodes x typed) :
      ResolvesExpr enclosing env (.new name args x) typed
  | thisCall {args : List Expr} {x : Extent} {nodes : List Node} {info : ClassEntry}
      (hinfo : enclosing.head? = some info) (hargs : ResolvesArgs enclosing env args nodes) :
      ResolvesExpr enclosing env (.thisCall args x)
        (.invoke .call (ctorOfArity info nodes.length) nodes none (c.span x), none)
  | methodCall {receiver : Expr} {name : String} {args : List Expr} {x : Extent} {typed : Typed}
      {owner : ClassEntry} {m : Callable} {nodes : List Node}
      (hreceiver : ResolvesExpr enclosing env receiver typed)
      (howner : ValueType.class? typed.2 = some owner)
      (hmethod : c.declarations.methodOf c.toSite owner name = .ok (some m))
      (hargs : ResolvesArgs enclosing env args nodes) :
      ResolvesExpr enclosing env (.methodCall receiver name args x)
        (.invoke .onReceiver m.symbol (typed.1 :: nodes) (ValueType.exception? (c.resultOf m))
          (c.span x), c.resultOf m)
  | binary {operator : String} {left right : Expr} {x : Extent} {l r : Typed}
      (hleft : ResolvesExpr enclosing env left l) (hright : ResolvesExpr enclosing env right r) :
      ResolvesExpr enclosing env (.binary operator left right x)
        (.plain (.binary operator) [l.1, r.1] (c.span x), none)

inductive ResolvesArgs (enclosing : List ClassEntry) (env : Environment) :
    List Expr → List Node → Prop
  | nil : ResolvesArgs enclosing env [] []
  | cons {e : Expr} {es : List Expr} {typed : Typed} {nodes : List Node}
      (hfirst : ResolvesExpr enclosing env e typed) (hrest : ResolvesArgs enclosing env es nodes) :
      ResolvesArgs enclosing env (e :: es) (typed.1 :: nodes)

end

mutual

/-- The scopes after a pattern come last. -/
inductive ResolvesPattern : Environment → Pattern → Node → Environment → Prop
  | typed {env : Environment} {binder type : String} {x : Extent} {t : ExceptionType}
      (hlookup : c.hierarchy.lookup type = some t) :
      ResolvesPattern env (.typed binder type x)
        (.plain (.typePattern t (caughtName binder)) [] (c.span x)) (env.bindCaught binder t)
  | bind {env : Environment} {binder : String} {x : Extent} {t : ExceptionType}
      (hget : c.hierarchy.get Hierarchy.throwableName = .ok t) :
      ResolvesPattern env (.bind binder x)
        (.plain (.typePattern t (caughtName binder)) [] (c.span x)) (env.bindCaught binder t)
  | declared {env env' : Environment} {name : String} {args : List Pattern} {x : Extent}
      {nodes : List Node} {f : Callable} (hargs : ResolvesPatterns env args nodes env')
      (hfunction : c.declarations.function? name = some f) :
      ResolvesPattern env (.extractor name args x)
        (.plain (.extractorPattern name true)
          (.invoke .call f.symbol [] none (c.span x) :: nodes) (c.span x)) env'
  | undeclared {env env' : Environment} {name : String} {args : List Pattern} {x : Extent}
      {nodes : List Node} (hargs : ResolvesPatterns env args nodes env')
      (hfunction : c.declarations.function? name = none) :
      ResolvesPattern env (.extractor name args x)
        (.plain (.extractorPattern name false) nodes (c.span x)) env'

inductive ResolvesPatterns : Environment → List Pattern → List Node → Environment → Prop
  | nil {env : Environment} : ResolvesPatterns env [] [] env
  | cons {env env₁ env₂ : Environment} {p : Pattern} {ps : List Pattern} {n : Node}
      {ns : List Node} (hfirst : ResolvesPattern env p n env₁)
      (hrest : ResolvesPatterns env₁ ps ns env₂) : ResolvesPatterns env (p :: ps) (n :: ns) env₂

end

inductive ResolvesGuard (enclosing : List ClassEntry) (env : Environment) :
    Option Expr → Node → Prop
  | none : ResolvesGuard enclosing env none .absent
  | some {e : Expr} {typed : Typed} (hguard : c.ResolvesExpr enclosing env e typed) :
      ResolvesGuard enclosing env (some e) typed.1

mutual

/-- The scopes after a statement come last. The branch behind an `else` is resolved first. -/
inductive ResolvesStmt (enclosing : List ClassEntry) :
    Environment → Stmt → Node → Environment → Prop
  | letBinding {env : Environment} {name : String} {declared : Option String} {value : Expr}
      {x : Extent} {typed : Typed} (hvalue : c.ResolvesExpr enclosing env value typed) :
      ResolvesStmt enclosing env (.letBinding name declared value x)
        (.plain (.letBinding name) [typed.1] (c.span x))
        (env.bind name (c.letType declared typed.2))
  | assign {env : Environment} {name : String} {value : Expr} {x : Extent} {typed : Typed}
      (hvalue : c.ResolvesExpr enclosing env value typed) :
      ResolvesStmt enclosing env (.assign name value x)
        (.plain (.assignment name) [typed.1] (c.span x)) env
  | raise {env : Environment} {value : Expr} {x : Extent} {typed : Typed} {t : ExceptionType}
      (hvalue : c.ResolvesExpr enclosing env value typed)
      (htype : ValueType.exception? typed.2 = some t) :
      ResolvesStmt enclosing env (.raise value x) (.raise typed.1 (some t) (c.span x)) env
  | returning {env : Environment} {value : Expr} {x : Extent} {typed : Typed}
      (hvalue : c.ResolvesExpr enclosing env value typed) :
      ResolvesStmt enclosing env (.returning value x) (.plain .returning [typed.1] (c.span x)) env
  | ifThen {env : Environment} {condition : Expr} {thenBlock : Block} {x : Extent} {test : Typed}
      {node : Node} (hcondition : c.ResolvesExpr enclosing env condition test)
      (hthen : ResolvesBlock enclosing env thenBlock node) :
      ResolvesStmt enclosing env (.ifElse condition thenBlock none x)
        (.plain .ifElse [test.1, node] (c.span x)) env
  | ifElse {env env' : Environment} {condition : Expr} {thenBlock : Block} {elseBranch : Stmt}
      {x : Extent} {test : Typed} {node elseNode : Node}
      (helse : ResolvesStmt enclosing env elseBranch elseNode env')
      (hcondition : c.ResolvesExpr enclosing env' condition test)
      (hthen : ResolvesBlock enclosing env' thenBlock node) :
      ResolvesStmt enclosing env (.ifElse condition thenBlock (some elseBranch) x)
        (.plain .ifElse [test.1, node, elseNode] (c.span x)) env'
  | whileLoop {env : Environment} {condition : Expr} {body : Block} {x : Extent} {test : Typed}
      {node : Node} (hcondition : c.ResolvesExpr enclosing env condition test)
      (hbody : ResolvesBlock enclosing env body node) :
      ResolvesStmt enclosing env (.whileLoop condition body x)
        (.plain .whileLoop [test.1, node] (c.span x)) env
  | tryCatch {env : Environment} {body : Block} {handlers : List Handler} {x : Extent}
      {node : Node} {clauses : List Clause} (hbody : ResolvesBlock enclosing env body node)
      (hhandlers : ResolvesHandlers enclosing env handlers clauses) :
      ResolvesStmt enclosing env (.tryCatch body handlers none x)
        (.tryCatch node clauses .absent (c.span x)) env
  | tryFinally {env : Environment} {body finalizer : Block} {handlers : List Handler} {x : Extent}
      {node last : Node} {clauses : List Clause} (hbody : ResolvesBlock enclosing env body node)
      (hhandlers : ResolvesHandlers enclosing env handlers clauses)
      (hfinalizer : ResolvesBlock enclosing env finalizer last) :
      ResolvesStmt enclosing env (.tryCatch body handlers (some finalizer) x)
        (.tryCatch node clauses last (c.span x)) env
  | block {env : Environment} {b : Block} {node : Node}
      (hblock : ResolvesBlock enclosing env b node) : ResolvesStmt enclosing env (.block b) node env
  | expr {env : Environment} {e : Expr} {typed : Typed}
      (hexpr : c.ResolvesExpr enclosing env e typed) :
      ResolvesStmt enclosing env (.expr e) typed.1 env

inductive ResolvesStmts (enclosing : List ClassEntry) :
    Environment → List Stmt → List Node → Environment → Prop
  | nil {env : Environment} : ResolvesStmts enclosing env [] [] env
  | cons {env env₁ env₂ : Environment} {s : Stmt} {ss : List Stmt} {n : Node} {ns : List Node}
      (hfirst : ResolvesStmt enclosing env s n env₁)
      (hrest : ResolvesStmts enclosing env₁ ss ns env₂) :
      ResolvesStmts enclosing env (s :: ss) (n :: ns) env₂

inductive ResolvesBlock (enclosing : List ClassEntry) : Environment → Block → Node → Prop
  | mk {env inner : Environment} {stmts : List Stmt} {x : Extent} {nodes : List Node}
      (hstmts : ResolvesStmts enclosing env.push stmts nodes inner) :
      ResolvesBlock enclosing env (.mk stmts x) (.plain .block nodes (c.span x))

inductive ResolvesHandler (enclosing : List ClassEntry) : Environment → Handler → Clause → Prop
  | mk {env inner : Environment} {pattern : Pattern} {guard : Option Expr} {body : Block}
      {x : Extent} {p g b : Node} (hpattern : c.ResolvesPattern env.push pattern p inner)
      (hguard : c.ResolvesGuard enclosing inner guard g)
      (hbody : ResolvesBlock enclosing inner body b) :
      ResolvesHandler enclosing env (.mk pattern guard body x) (.mk p g b (c.span x))

inductive ResolvesHandlers (enclosing : List ClassEntry) :
    Environment → List Handler → List Clause → Prop
  | nil {env : Environment} : ResolvesHandlers enclosing env [] []
  | cons {env : Environment} {h : Handler} {hs : List Handler} {clause : Clause}
      {clauses : List Clause} (hfirst : ResolvesHandler enclosing env h clause)
      (hrest : ResolvesHandlers enclosing env hs clauses) :
      ResolvesHandlers enclosing env (h :: hs) (clause :: clauses)

end

/-- The statements of a callable share the scope of its parameters. -/
inductive ResolvesFunction (enclosing : List ClassEntry) (env : Environment) (info : Callable)
    (params : List Param) : Block → Extent → Node → Prop
  | mk {stmts : List Stmt} {y x : Extent} {nodes : List Node} {inner : Environment}
      (hstmts : c.ResolvesStmts enclosing (c.withParams params env.push) stmts nodes inner) :
      ResolvesFunction enclosing env info params (.mk stmts y) x
        (.funcDef info.symbol info.params nodes (c.span x))

mutual

/-- A class stands in the tree with the entry that is found under its name. -/
inductive ResolvesClass : List ClassEntry → Environment → ClassDecl → Node → Prop
  | mk {enclosing : List ClassEntry} {env inner : Environment}
      {markers ctorMarkers : List MarkerDecl} {name : String} {params : List Param}
      {parents : List String} {members : List Member} {x : Extent} {info : ClassEntry}
      {nodes : List Node}
      (hinfo : c.declarations.class? name = some info)
      (hmembers : ResolvesMembers (info :: enclosing) info (c.withParams params env.push) 0 members
        nodes inner) :
      ResolvesClass enclosing env (.mk markers name params ctorMarkers parents members x)
        (.classDef info.symbol info.ctor nodes (c.span x))

/-- The members from an index on. The statements among them bind names for those behind them. -/
inductive ResolvesMembers : List ClassEntry → ClassEntry → Environment → Nat → List Member →
    List Node → Environment → Prop
  | nil {enclosing : List ClassEntry} {info : ClassEntry} {env : Environment} {index : Nat} :
      ResolvesMembers enclosing info env index [] [] env
  | func {enclosing : List ClassEntry} {info : ClassEntry} {env env' : Environment} {index : Nat}
      {f : FuncDecl} {ms : List Member} {m : Callable} {n : Node} {ns : List Node}
      (hmethod : info.methodAt index = .ok m)
      (hfirst : c.ResolvesFunction enclosing env m f.params f.body f.extent n)
      (hrest : ResolvesMembers enclosing info env (index + 1) ms ns env') :
      ResolvesMembers enclosing info env index (.func f :: ms) (n :: ns) env'
  | ctor {enclosing : List ClassEntry} {info : ClassEntry} {env env' : Environment} {index : Nat}
      {k : CtorDecl} {ms : List Member} {m : Callable} {n : Node} {ns : List Node}
      (hctor : info.otherCtorAt index = .ok m)
      (hfirst : c.ResolvesFunction enclosing env m k.params k.body k.extent n)
      (hrest : ResolvesMembers enclosing info env (index + 1) ms ns env') :
      ResolvesMembers enclosing info env index (.ctor k :: ms) (n :: ns) env'
  | classDecl {enclosing : List ClassEntry} {info : ClassEntry} {env env' : Environment}
      {index : Nat} {k : ClassDecl} {ms : List Member} {n : Node} {ns : List Node}
      (hfirst : ResolvesClass enclosing env k n)
      (hrest : ResolvesMembers enclosing info env (index + 1) ms ns env') :
      ResolvesMembers enclosing info env index (.classDecl k :: ms) (n :: ns) env'
  | stmt {enclosing : List ClassEntry} {info : ClassEntry} {env env₁ env₂ : Environment}
      {index : Nat} {s : Stmt} {ms : List Member} {n : Node} {ns : List Node}
      (hfirst : c.ResolvesStmt enclosing env s n env₁)
      (hrest : ResolvesMembers enclosing info env₁ (index + 1) ms ns env₂) :
      ResolvesMembers enclosing info env index (.stmt s :: ms) (n :: ns) env₂

end

inductive ResolvesItems : Environment → List Item → List Node → Environment → Prop
  | nil {env : Environment} : ResolvesItems env [] [] env
  | exception {env env' : Environment} {e : ExceptionDecl} {items : List Item} {ns : List Node}
      (hrest : ResolvesItems env items ns env') : ResolvesItems env (.exception e :: items) ns env'
  | func {env env' : Environment} {f : FuncDecl} {items : List Item} {info : Callable} {n : Node}
      {ns : List Node} (hinfo : c.declarations.function? f.name = some info)
      (hfirst : c.ResolvesFunction [] env info f.params f.body f.extent n)
      (hrest : ResolvesItems env items ns env') :
      ResolvesItems env (.func f :: items) (n :: ns) env'
  | classDecl {env env' : Environment} {k : ClassDecl} {items : List Item} {n : Node}
      {ns : List Node} (hfirst : c.ResolvesClass [] env k n)
      (hrest : ResolvesItems env items ns env') :
      ResolvesItems env (.classDecl k :: items) (n :: ns) env'
  | stmt {env env₁ env₂ : Environment} {s : Stmt} {items : List Item} {n : Node} {ns : List Node}
      (hfirst : c.ResolvesStmt [] env s n env₁) (hrest : ResolvesItems env₁ items ns env₂) :
      ResolvesItems env (.stmt s :: items) (n :: ns) env₂

/-- A statement that leaves nothing in the scope around it: neither it nor what stands behind an
`else` of it is a `let`. -/
def bindsNothing : Stmt → Bool
  | .letBinding _ _ _ _ => false
  | .ifElse _ _ (some elseBranch) _ => bindsNothing elseBranch
  | _ => true

section Scopes

variable {c : Context} {enclosing : List ClassEntry}

mutual

/-- Patterns bind in the innermost scope. -/
theorem ResolvesPattern.pop_eq {env env' : Environment} {p : Pattern} {n : Node} :
    c.ResolvesPattern env p n env' → env'.pop = env.pop
  | .typed _ => env.pop_bindCaught _ _
  | .bind _ => env.pop_bindCaught _ _
  | .declared hargs _ => hargs.pop_eq
  | .undeclared hargs _ => hargs.pop_eq

theorem ResolvesPatterns.pop_eq {env env' : Environment} {ps : List Pattern} {ns : List Node} :
    c.ResolvesPatterns env ps ns env' → env'.pop = env.pop
  | .nil => rfl
  | .cons hfirst hrest => hrest.pop_eq.trans hfirst.pop_eq

end

/-- Statements bind in the innermost scope. -/
theorem ResolvesStmt.pop_eq {env env' : Environment} {s : Stmt} {n : Node} :
    c.ResolvesStmt enclosing env s n env' → env'.pop = env.pop
  | .letBinding _ => env.pop_bind _ _
  | .ifElse helse _ _ => helse.pop_eq
  | .assign _ | .raise _ _ | .returning _ | .ifThen _ _ | .whileLoop _ _ | .tryCatch _ _
  | .tryFinally _ _ _ | .block _ | .expr _ => rfl

theorem ResolvesStmts.pop_eq {env env' : Environment} {ss : List Stmt} {ns : List Node} :
    c.ResolvesStmts enclosing env ss ns env' → env'.pop = env.pop
  | .nil => rfl
  | .cons hfirst hrest => hrest.pop_eq.trans hfirst.pop_eq

theorem ResolvesStmt.env_eq {env env' : Environment} {s : Stmt} {n : Node} :
    c.ResolvesStmt enclosing env s n env' → bindsNothing s = true → env' = env
  | .letBinding _, h => by cases h
  | .ifElse helse _ _, h => helse.env_eq h
  | .assign _, _ | .raise _ _, _ | .returning _, _ | .ifThen _ _, _ | .whileLoop _ _, _
  | .tryCatch _ _, _ | .tryFinally _ _ _, _ | .block _, _ | .expr _, _ => rfl

theorem ResolvesMembers.pop_eq {info : ClassEntry} {env env' : Environment} {index : Nat}
    {ms : List Member} {ns : List Node} :
    c.ResolvesMembers enclosing info env index ms ns env' → env'.pop = env.pop
  | .nil => rfl
  | .func _ _ hrest => hrest.pop_eq
  | .ctor _ _ hrest => hrest.pop_eq
  | .classDecl _ hrest => hrest.pop_eq
  | .stmt hfirst hrest => hrest.pop_eq.trans hfirst.pop_eq

end Scopes

end Context

end CheckedExceptions.Typing
