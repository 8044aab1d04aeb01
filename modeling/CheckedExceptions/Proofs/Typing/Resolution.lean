import CheckedExceptions.Proofs.Typing.Admissible
import CheckedExceptions.Proofs.Typing.Running

/-!
What resolution leaves in the tree. Every type that a scope gives to a name is registered, or is a
class whose callables are declared, and the rules keep this. So every raise and every type test of
the tree has a registered type, and every invocation has a declared symbol or is the creation of an
exception.
-/
namespace CheckedExceptions.Typing.Context

open CheckedExceptions.Language

/-- A type that a value may have: a registered one, or a class with declared callables. -/
def Knows (c : Context) : Option ValueType → Prop
  | some (.exception t) => c.hierarchy.contains t.name = true
  | some (.classType info) => info.ListedIn c.declarations.symbols
  | none => True

def KnowsAll (c : Context) (env : Environment) : Prop :=
  ∀ scope ∈ env.scopes, ∀ binding ∈ scope, c.Knows binding.2

/-- Classes with declared callables. -/
def Lists (c : Context) (classes : List ClassEntry) : Prop :=
  ∀ info ∈ classes, info.ListedIn c.declarations.symbols

/-- A node whose references are registered or declared. -/
abbrev Fine (c : Context) (n : Node) : Prop := n.Resolved c.hierarchy c.declarations.symbols

/-- A fine node and a known type. -/
def FineTyped (c : Context) (typed : Typed) : Prop := c.Fine typed.1 ∧ c.Knows typed.2

variable {c : Context}

section Scopes

theorem KnowsAll.push {env : Environment} (henv : c.KnowsAll env) : c.KnowsAll env.push :=
  List.forall_mem_cons.mpr ⟨List.forall_mem_nil _, henv⟩

theorem KnowsAll.bind {env : Environment} (henv : c.KnowsAll env) (name : String)
    {type : Option ValueType} (htype : c.Knows type) : c.KnowsAll (env.bind name type) := by
  unfold Environment.bind
  cases hscopes : env.scopes with
  | nil => exact List.forall_mem_singleton.mpr (List.forall_mem_singleton.mpr htype)
  | cons scope outer =>
    rw [KnowsAll, hscopes] at henv
    obtain ⟨hscope, houter⟩ := List.forall_mem_cons.mp henv
    exact List.forall_mem_cons.mpr ⟨List.forall_mem_cons.mpr ⟨htype, hscope⟩, houter⟩

theorem KnowsAll.bindCaught {env : Environment} (henv : c.KnowsAll env) (binder : String)
    {t : ExceptionType} (ht : c.hierarchy.contains t.name = true) :
    c.KnowsAll (env.bindCaught binder t) := by
  have hknows : c.Knows (some (.exception t)) := ht
  unfold Environment.bindCaught
  split
  · exact henv
  · exact henv.bind binder hknows

theorem knows_lookup {env : Environment} (henv : c.KnowsAll env) (name : String) :
    c.Knows (env.lookup name).join := by
  cases hlookup : env.lookup name with
  | none => trivial
  | some type =>
    obtain ⟨scope, hscope, hbinding⟩ := List.exists_of_findSome?_eq_some hlookup
    exact henv scope hscope _ (mem_of_lookup hbinding)

theorem eq_of_exception? {type : Option ValueType} {t : ExceptionType}
    (h : ValueType.exception? type = some t) : type = some (.exception t) := by
  cases type with
  | none => cases h
  | some v =>
    cases v with
    | exception u =>
      cases h
      rfl
    | classType _ => cases h

theorem eq_of_class? {type : Option ValueType} {info : ClassEntry}
    (h : ValueType.class? type = some info) : type = some (.classType info) := by
  cases type with
  | none => cases h
  | some v =>
    cases v with
    | exception _ => cases h
    | classType _ =>
      cases h
      rfl

end Scopes

section Types

variable (hc : c.declarations.Closed)

include hc

theorem knows_class? (name : String) : c.Knows ((c.declarations.class? name).map .classType) := by
  cases hclass : c.declarations.class? name with
  | none => trivial
  | some info => exact hc.classes info (Declarations.mem_classes_of_class? hclass)

theorem knows_namedType (name : String) : c.Knows (c.namedType name) := by
  unfold namedType
  cases hlookup : c.hierarchy.lookup name with
  | none => exact knows_class? hc name
  | some t =>
    obtain ⟨hcontains, rfl⟩ := contains_of_lookup hlookup
    exact hcontains

theorem knows_resultOf (f : Callable) : c.Knows (c.resultOf f) := by
  unfold resultOf
  cases f.result with
  | none => trivial
  | some name => exact knows_namedType hc name

theorem knows_letType (declared : Option String) {value : Option ValueType}
    (hvalue : c.Knows value) : c.Knows (c.letType declared value) := by
  cases declared with
  | none => exact hvalue
  | some name => exact knows_namedType hc name

theorem knows_nameType {enclosing : List ClassEntry} (henclosing : c.Lists enclosing)
    (name : String) {bound : Option (Option ValueType)} (hbound : c.Knows bound.join) :
    c.Knows (c.nameType enclosing name bound) := by
  unfold nameType
  split
  · rename_i t hexception
    rwa [eq_of_exception? hexception] at hbound
  · exact henclosing _ List.mem_cons_self
  · cases bound with
    | none => exact knows_class? hc name
    | some type => exact hbound

theorem KnowsAll.withParams (params : List Param) {env : Environment} (henv : c.KnowsAll env) :
    c.KnowsAll (c.withParams params env) := by
  induction params generalizing env with
  | nil => exact henv
  | cons p ps ih => exact ih (henv.bind p.name (knows_namedType hc p.type))

end Types

section Calls

theorem ctorOfArity_mem {info : ClassEntry} {symbols : List CheckedExceptions.Symbol}
    (hinfo : info.ListedIn symbols) (arity : Nat) : ctorOfArity info arity ∈ symbols := by
  unfold ctorOfArity
  split
  · exact hinfo.ctor
  · cases hfind : info.otherCtors.find? (·.params.length = arity) with
    | none => exact hinfo.ctor
    | some other => exact hinfo.otherCtors other (List.mem_of_find?_eq_some hfind)

theorem fine_invoke {how : Invocation} {symbol : CheckedExceptions.Symbol} {operands : List Node}
    {type : Option ExceptionType} {span : Span} (hsymbol : symbol ∈ c.declarations.symbols)
    (hoperands : ∀ n ∈ operands, c.Fine n) : c.Fine (.invoke how symbol operands type span) :=
  Node.resolved_of_children (Or.inl hsymbol) hoperands

theorem fine_leaf {form : Form} {span : Span}
    (hform : (Node.plain form [] span).Admissible c.hierarchy c.declarations.symbols) :
    c.Fine (.plain form [] span) :=
  Node.resolved_of_children hform (List.forall_mem_nil _)

variable (hc : c.declarations.Closed) {name : String} {args : List Node} {x : Extent}
  {typed : Typed} (hargs : ∀ n ∈ args, c.Fine n)

include hc

theorem symbol_of_findInClasses {enclosing : List ClassEntry} (henclosing : c.Lists enclosing)
    {m : Callable} (h : c.findInClasses name enclosing = .ok (some m)) :
    m.symbol ∈ c.declarations.symbols := by
  obtain ⟨info, hinfo, hmethod⟩ := (findInClasses_safe name enclosing).of_ok h m rfl
  have hlisted : info.ListedIn c.declarations.symbols :=
    hinfo.elim (henclosing info) (hc.classes info)
  exact Declarations.symbol_of_method? hlisted hmethod

include hargs

theorem Constructs.fine (h : c.Constructs name args x typed) : c.FineTyped typed := by
  cases h with
  | exception hlookup =>
    obtain ⟨hcontains, rfl⟩ := contains_of_lookup hlookup
    exact ⟨Node.resolved_of_children (Or.inr ⟨name, hcontains, rfl⟩) hargs, hcontains⟩
  | object _ hclass =>
    have hinfo := hc.classes _ (Declarations.mem_classes_of_class? hclass)
    exact ⟨fine_invoke (ctorOfArity_mem hinfo _) hargs, hinfo⟩

theorem Calls.fine {enclosing : List ClassEntry} (henclosing : c.Lists enclosing)
    (h : c.Calls enclosing name args x typed) : c.FineTyped typed := by
  cases h with
  | method hfound =>
    have hoperands : ∀ n ∈ c.thisNode x :: args, c.Fine n :=
      List.forall_mem_cons.mpr ⟨fine_leaf trivial, hargs⟩
    exact ⟨fine_invoke (symbol_of_findInClasses hc henclosing hfound) hoperands,
      knows_resultOf hc _⟩
  | function _ hfunction =>
    have hf := hc.functions _ (List.mem_of_find?_eq_some hfunction)
    exact ⟨fine_invoke hf hargs, knows_resultOf hc _⟩
  | new _ _ hnew => exact hnew.fine hc hargs

end Calls

section Trees

mutual

theorem ResolvesExpr.fine (hc : c.declarations.Closed) {enclosing : List ClassEntry}
    (henclosing : c.Lists enclosing) {env : Environment} (henv : c.KnowsAll env) {e : Expr}
    {typed : Typed} :
    c.ResolvesExpr enclosing env e typed → c.FineTyped typed
  | .ref => ⟨fine_leaf trivial, knows_nameType hc henclosing _ (knows_lookup henv _)⟩
  | .this => by
    refine ⟨fine_leaf trivial, ?_⟩
    cases enclosing with
    | nil => exact knows_nameType hc henclosing "this" (knows_lookup henv "this")
    | cons info _ => exact henclosing info List.mem_cons_self
  | .string | .number _ | .truth => ⟨fine_leaf trivial, trivial⟩
  | .call hargs hcall => hcall.fine hc (hargs.fine hc henclosing henv) henclosing
  | .new hargs hnew => hnew.fine hc (hargs.fine hc henclosing henv)
  | .thisCall hinfo hargs => by
    have hlisted := henclosing _ (List.mem_of_head? hinfo)
    exact ⟨fine_invoke (ctorOfArity_mem hlisted _) (hargs.fine hc henclosing henv), trivial⟩
  | .methodCall hreceiver howner hmethod hargs => by
    obtain ⟨hnode, htype⟩ := hreceiver.fine hc henclosing henv
    rw [eq_of_class? howner] at htype
    have hoperands := List.forall_mem_cons.mpr ⟨hnode, hargs.fine hc henclosing henv⟩
    exact ⟨fine_invoke (Declarations.symbol_of_methodOf _ hc htype hmethod) hoperands,
      knows_resultOf hc _⟩
  | .binary hleft hright => by
    refine ⟨Node.resolved_of_children trivial (List.forall_mem_cons.mpr ⟨?_, ?_⟩), trivial⟩
    · exact (hleft.fine hc henclosing henv).1
    · exact List.forall_mem_singleton.mpr (hright.fine hc henclosing henv).1

theorem ResolvesArgs.fine (hc : c.declarations.Closed) {enclosing : List ClassEntry}
    (henclosing : c.Lists enclosing) {env : Environment} (henv : c.KnowsAll env) {es : List Expr}
    {nodes : List Node} :
    c.ResolvesArgs enclosing env es nodes → ∀ n ∈ nodes, c.Fine n
  | .nil => List.forall_mem_nil _
  | .cons hfirst hrest =>
    List.forall_mem_cons.mpr ⟨(hfirst.fine hc henclosing henv).1, hrest.fine hc henclosing henv⟩

end

mutual

/-- A pattern is fine, and binds known types. -/
theorem ResolvesPattern.fine (hc : c.declarations.Closed) {env env' : Environment}
    (henv : c.KnowsAll env) {p : Pattern} {n : Node} : c.ResolvesPattern env p n env' →
    c.Fine n ∧ c.KnowsAll env'
  | .typed hlookup => by
    obtain ⟨hcontains, rfl⟩ := contains_of_lookup hlookup
    exact ⟨fine_leaf hcontains, henv.bindCaught _ hcontains⟩
  | .bind hget => by
    obtain ⟨hcontains, rfl⟩ := contains_of_get hget
    exact ⟨fine_leaf hcontains, henv.bindCaught _ hcontains⟩
  | .declared hargs hfunction => by
    obtain ⟨hnodes, henv'⟩ := hargs.fine hc henv
    have hf := hc.functions _ (List.mem_of_find?_eq_some hfunction)
    refine ⟨Node.resolved_of_children trivial (List.forall_mem_cons.mpr ⟨?_, hnodes⟩), henv'⟩
    exact fine_invoke hf (List.forall_mem_nil _)
  | .undeclared hargs _ => by
    obtain ⟨hnodes, henv'⟩ := hargs.fine hc henv
    exact ⟨Node.resolved_of_children trivial hnodes, henv'⟩

theorem ResolvesPatterns.fine (hc : c.declarations.Closed) {env env' : Environment}
    (henv : c.KnowsAll env) {ps : List Pattern} {ns : List Node} :
    c.ResolvesPatterns env ps ns env' → (∀ n ∈ ns, c.Fine n) ∧ c.KnowsAll env'
  | .nil => ⟨List.forall_mem_nil _, henv⟩
  | .cons hfirst hrest => by
    obtain ⟨hn, henv₁⟩ := hfirst.fine hc henv
    obtain ⟨hns, henv₂⟩ := hrest.fine hc henv₁
    exact ⟨List.forall_mem_cons.mpr ⟨hn, hns⟩, henv₂⟩

end

theorem ResolvesGuard.fine (hc : c.declarations.Closed) {enclosing : List ClassEntry}
    (henclosing : c.Lists enclosing) {env : Environment} (henv : c.KnowsAll env)
    {guard : Option Expr} {n : Node}
    (h : c.ResolvesGuard enclosing env guard n) : c.Fine n := by
  cases h with
  | none => exact Node.resolved_absent
  | some hguard => exact (hguard.fine hc henclosing henv).1

/-- A node without references of its own. -/
theorem fine_plain {form : Form} {parts : List Node} {span : Span}
    (hform : (Node.plain form parts span).Admissible c.hierarchy c.declarations.symbols)
    (hparts : ∀ n ∈ parts, c.Fine n) : c.Fine (.plain form parts span) :=
  Node.resolved_of_children hform hparts

mutual

/-- A statement is fine, and binds known types. -/
theorem ResolvesStmt.fine (hc : c.declarations.Closed) {enclosing : List ClassEntry}
    (henclosing : c.Lists enclosing) {env env' : Environment} (henv : c.KnowsAll env) {s : Stmt}
    {n : Node} :
    c.ResolvesStmt enclosing env s n env' → c.Fine n ∧ c.KnowsAll env'
  | .letBinding hvalue => by
    obtain ⟨hnode, htype⟩ := hvalue.fine hc henclosing henv
    exact ⟨fine_plain trivial (List.forall_mem_singleton.mpr hnode),
      henv.bind _ (knows_letType hc _ htype)⟩
  | .assign hvalue | .returning hvalue =>
    ⟨fine_plain trivial (List.forall_mem_singleton.mpr (hvalue.fine hc henclosing henv).1), henv⟩
  | .raise hvalue htype => by
    obtain ⟨hnode, hknows⟩ := hvalue.fine hc henclosing henv
    rw [eq_of_exception? htype] at hknows
    refine ⟨Node.resolved_of_children ⟨_, rfl, hknows⟩ ?_, henv⟩
    exact List.forall_mem_singleton.mpr hnode
  | .ifThen hcondition hthen => by
    have htest := (hcondition.fine hc henclosing henv).1
    have hnode := hthen.fine hc henclosing henv
    refine ⟨fine_plain trivial (List.forall_mem_cons.mpr ⟨htest, ?_⟩), henv⟩
    exact List.forall_mem_singleton.mpr hnode
  | .ifElse helse hcondition hthen => by
    obtain ⟨helseNode, henv'⟩ := helse.fine hc henclosing henv
    have htest := (hcondition.fine hc henclosing henv').1
    have hnode := hthen.fine hc henclosing henv'
    refine ⟨fine_plain trivial (List.forall_mem_cons.mpr ⟨htest, ?_⟩), henv'⟩
    exact List.forall_mem_cons.mpr ⟨hnode, List.forall_mem_singleton.mpr helseNode⟩
  | .whileLoop hcondition hbody => by
    have htest := (hcondition.fine hc henclosing henv).1
    have hnode := hbody.fine hc henclosing henv
    refine ⟨fine_plain trivial (List.forall_mem_cons.mpr ⟨htest, ?_⟩), henv⟩
    exact List.forall_mem_singleton.mpr hnode
  | .tryCatch hbody hhandlers =>
    ⟨Node.resolved_tryCatch _ (hbody.fine hc henclosing henv) (hhandlers.fine hc henclosing henv)
      Node.resolved_absent, henv⟩
  | .tryFinally hbody hhandlers hfinalizer =>
    ⟨Node.resolved_tryCatch _ (hbody.fine hc henclosing henv) (hhandlers.fine hc henclosing henv)
      (hfinalizer.fine hc henclosing henv), henv⟩
  | .block hblock => ⟨hblock.fine hc henclosing henv, henv⟩
  | .expr hexpr => ⟨(hexpr.fine hc henclosing henv).1, henv⟩

theorem ResolvesStmts.fine (hc : c.declarations.Closed) {enclosing : List ClassEntry}
    (henclosing : c.Lists enclosing) {env env' : Environment} (henv : c.KnowsAll env)
    {ss : List Stmt} {ns : List Node} :
    c.ResolvesStmts enclosing env ss ns env' → (∀ n ∈ ns, c.Fine n) ∧ c.KnowsAll env'
  | .nil => ⟨List.forall_mem_nil _, henv⟩
  | .cons hfirst hrest => by
    obtain ⟨hn, henv₁⟩ := hfirst.fine hc henclosing henv
    obtain ⟨hns, henv₂⟩ := hrest.fine hc henclosing henv₁
    exact ⟨List.forall_mem_cons.mpr ⟨hn, hns⟩, henv₂⟩

theorem ResolvesBlock.fine (hc : c.declarations.Closed) {enclosing : List ClassEntry}
    (henclosing : c.Lists enclosing) {env : Environment} (henv : c.KnowsAll env) {b : Block}
    {n : Node} :
    c.ResolvesBlock enclosing env b n → c.Fine n
  | .mk hstmts => fine_plain trivial (hstmts.fine hc henclosing henv.push).1

theorem ResolvesHandler.fine (hc : c.declarations.Closed) {enclosing : List ClassEntry}
    (henclosing : c.Lists enclosing) {env : Environment} (henv : c.KnowsAll env) {h : Handler}
    {clause : Clause} :
    c.ResolvesHandler enclosing env h clause → c.Fine (.clause clause)
  | .mk hpattern hguard hbody => by
    obtain ⟨hp, hinner⟩ := hpattern.fine hc henv.push
    exact Node.resolved_clause _ hp (hguard.fine hc henclosing hinner)
      (hbody.fine hc henclosing hinner)

theorem ResolvesHandlers.fine (hc : c.declarations.Closed) {enclosing : List ClassEntry}
    (henclosing : c.Lists enclosing) {env : Environment} (henv : c.KnowsAll env)
    {hs : List Handler} {clauses : List Clause} :
    c.ResolvesHandlers enclosing env hs clauses → ∀ clause ∈ clauses, c.Fine (.clause clause)
  | .nil => List.forall_mem_nil _
  | .cons hfirst hrest =>
    List.forall_mem_cons.mpr ⟨hfirst.fine hc henclosing henv, hrest.fine hc henclosing henv⟩

end

theorem ResolvesFunction.fine (hc : c.declarations.Closed) {enclosing : List ClassEntry}
    (henclosing : c.Lists enclosing) {env : Environment} (henv : c.KnowsAll env) {info : Callable}
    {params : List Param}
    {body : Block} {x : Extent} {n : Node}
    (h : c.ResolvesFunction enclosing env info params body x n) : c.Fine n := by
  cases h with
  | mk hstmts =>
    have hnodes := (hstmts.fine hc henclosing (henv.push.withParams hc params)).1
    exact Node.resolved_of_children trivial hnodes

mutual

/-- Inside a class, the class itself stands in front of those around it. -/
theorem ResolvesClass.fine (hc : c.declarations.Closed) {enclosing : List ClassEntry}
    (henclosing : c.Lists enclosing) {env : Environment} (henv : c.KnowsAll env) {k : ClassDecl}
    {n : Node} :
    c.ResolvesClass enclosing env k n → c.Fine n
  | .mk hinfo hmembers => by
    have hself := hc.classes _ (Declarations.mem_classes_of_class? hinfo)
    have hnodes := hmembers.fine hc (List.forall_mem_cons.mpr ⟨hself, henclosing⟩)
      (henv.push.withParams hc _)
    exact Node.resolved_of_children trivial hnodes

theorem ResolvesMembers.fine (hc : c.declarations.Closed) {enclosing : List ClassEntry}
    (henclosing : c.Lists enclosing) {info : ClassEntry} {env env' : Environment}
    (henv : c.KnowsAll env) {index : Nat}
    {ms : List Member} {ns : List Node} :
    c.ResolvesMembers enclosing info env index ms ns env' → ∀ n ∈ ns, c.Fine n
  | .nil => List.forall_mem_nil _
  | .func _ hfirst hrest | .ctor _ hfirst hrest =>
    List.forall_mem_cons.mpr ⟨hfirst.fine hc henclosing henv, hrest.fine hc henclosing henv⟩
  | .classDecl hfirst hrest =>
    List.forall_mem_cons.mpr ⟨hfirst.fine hc henclosing henv, hrest.fine hc henclosing henv⟩
  | .stmt hfirst hrest => by
    obtain ⟨hn, henv₁⟩ := hfirst.fine hc henclosing henv
    exact List.forall_mem_cons.mpr ⟨hn, hrest.fine hc henclosing henv₁⟩

end

theorem ResolvesItems.fine (hc : c.declarations.Closed) {env env' : Environment}
    {items : List Item} {ns : List Node} (h : c.ResolvesItems env items ns env')
    (henv : c.KnowsAll env) : ∀ n ∈ ns, c.Fine n := by
  have htop : c.Lists [] := List.forall_mem_nil _
  induction h with
  | nil => exact List.forall_mem_nil _
  | exception _ ih => exact ih henv
  | func _ hfirst _ ih => exact List.forall_mem_cons.mpr ⟨hfirst.fine hc htop henv, ih henv⟩
  | classDecl hfirst _ ih => exact List.forall_mem_cons.mpr ⟨hfirst.fine hc htop henv, ih henv⟩
  | stmt hfirst _ ih =>
    obtain ⟨hn, henv₁⟩ := hfirst.fine hc htop henv
    exact List.forall_mem_cons.mpr ⟨hn, ih henv₁⟩

end Trees

end CheckedExceptions.Typing.Context
