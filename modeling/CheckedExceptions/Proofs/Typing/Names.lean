import CheckedExceptions.Proofs.Syntax.Branches
import CheckedExceptions.Proofs.Typing.Visible

/-!
The names in a tree. From known scopes, resolution leads to known scopes: what the text binds comes
in front of the innermost one, and what is in a scope of its own is gone behind it. So each name
that a tree holds has the type of the nearest binding that is visible where the name stands in the
text.
-/
namespace CheckedExceptions

namespace Typing

open CheckedExceptions.Language

namespace Context

variable {c : Context}

section Expressions

variable {enclosing : List ClassEntry} {env : Environment}

theorem names_thisNode (x : Extent) : (c.thisNode x).names = [] := rfl

theorem Constructs.names {name : String} {args : List Node} {x : Extent} {typed : Typed}
    (h : c.Constructs name args x typed) :
    typed.1.names = args.flatMap Node.names ∧ typed.2 = c.namedType name := by
  unfold namedType
  cases h with
  | exception hlookup =>
    rw [hlookup]
    exact ⟨Node.names_eq_flatMap rfl, rfl⟩
  | object hlookup hclass =>
    rw [hlookup, hclass]
    exact ⟨Node.names_eq_flatMap rfl, rfl⟩

theorem Calls.names {name : String} {args : List Node} {x : Extent} {typed : Typed}
    (h : c.Calls enclosing name args x typed) :
    typed.1.names = args.flatMap Node.names ∧ typed.2 = c.callType enclosing name := by
  unfold callType
  cases h with
  | method hfound =>
    rw [hfound]
    exact ⟨Node.names_eq_flatMap rfl, rfl⟩
  | function hfound hfunction =>
    refine ⟨Node.names_eq_flatMap rfl, ?_⟩
    simp only [hfound, hfunction]
  | new hfound hfunction hnew =>
    simp only [hfound, hfunction]
    exact hnew.names

mutual

/-- The names of an expression have the types of what is visible, and so has its value. -/
theorem ResolvesExpr.names {e : Expr} {typed : Typed} :
    c.ResolvesExpr enclosing env e typed →
      typed.1.names = c.namesOf (exprUses env.visible e) ∧
        typed.2 = c.valueType enclosing env.visible e
  | .ref => by
    rw [exprUses, valueType, Environment.lookup_eq_visible]
    exact ⟨rfl, rfl⟩
  | .this => by
    rw [exprUses, Environment.lookup_eq_visible]
    refine ⟨names_thisNode _, ?_⟩
    cases enclosing <;> rfl
  | .string | .number _ | .truth => by
    rw [exprUses, valueType]
    exact ⟨rfl, rfl⟩
  | .call hargs hcall => by
    rw [exprUses, valueType, ← hargs.names]
    exact hcall.names
  | .new hargs hnew => by
    rw [exprUses, valueType, ← hargs.names]
    exact hnew.names
  | .thisCall _ hargs => by
    rw [exprUses, valueType, ← hargs.names]
    exact ⟨Node.names_eq_flatMap rfl, rfl⟩
  | .methodCall hreceiver howner hmethod hargs => by
    obtain ⟨hnames, htype⟩ := hreceiver.names
    rw [exprUses, valueType, methodType, ← htype, namesOf_append, ← hnames, ← hargs.names]
    refine ⟨Node.names_eq_flatMap rfl, ?_⟩
    simp only [howner, hmethod]
  | .binary hleft hright => by
    rw [exprUses, valueType, namesOf_append, ← hleft.names.1, ← hright.names.1,
      Node.names_eq_flatMap rfl]
    simp [Node.children]

theorem ResolvesArgs.names {es : List Expr} {nodes : List Node} :
    c.ResolvesArgs enclosing env es nodes →
      nodes.flatMap Node.names = c.namesOf (argsUses env.visible es)
  | .nil => by rw [argsUses]; rfl
  | .cons hfirst hrest => by
    rw [argsUses, List.flatMap_cons, hfirst.names.1, hrest.names, namesOf_append]

end

theorem ResolvesGuard.names {guard : Option Expr} {n : Node}
    (h : c.ResolvesGuard enclosing env guard n) :
    n.names = c.namesOf (guardUses env.visible guard) := by
  cases h with
  | none => rfl
  | some hguard => exact hguard.names.1

end Expressions

section Patterns

theorem bindCaught_eq (binder : String) (t : ExceptionType) (scope : LocalScope)
    (outer : List LocalScope) : Environment.bindCaught ⟨scope :: outer⟩ binder t =
      ⟨(caughtAs binder t ++ scope) :: outer⟩ := by
  unfold Environment.bindCaught caughtAs
  split <;> rfl

mutual

theorem ResolvesPattern.names {env env' : Environment} {scope : LocalScope}
    {outer : List LocalScope} {p : Pattern} {n : Node} (henv : env = ⟨scope :: outer⟩) :
    c.ResolvesPattern env p n env' → env' = ⟨(caught p ++ scope) :: outer⟩ ∧ n.names = []
  | .typed hlookup => by
    rw [henv, bindCaught_eq, (contains_of_lookup hlookup).2, caught]
    exact ⟨rfl, rfl⟩
  | .bind hget => by
    rw [henv, bindCaught_eq, (contains_of_get hget).2, caught]
    exact ⟨rfl, rfl⟩
  | .declared hargs _ => by
    obtain ⟨hscopes, hnames⟩ := hargs.names henv
    rw [caught]
    exact ⟨hscopes, (Node.names_eq_flatMap rfl).trans hnames⟩
  | .undeclared hargs _ => by
    obtain ⟨hscopes, hnames⟩ := hargs.names henv
    rw [caught]
    exact ⟨hscopes, (Node.names_eq_flatMap rfl).trans hnames⟩

theorem ResolvesPatterns.names {env env' : Environment} {scope : LocalScope}
    {outer : List LocalScope} {ps : List Pattern} {ns : List Node}
    (henv : env = ⟨scope :: outer⟩) :
    c.ResolvesPatterns env ps ns env' →
      env' = ⟨(caughtAll ps ++ scope) :: outer⟩ ∧ ns.flatMap Node.names = []
  | .nil => by
    rw [caughtAll]
    exact ⟨henv, rfl⟩
  | .cons hfirst hrest => by
    obtain ⟨hscopes₁, hname⟩ := hfirst.names henv
    obtain ⟨hscopes₂, hnames⟩ := hrest.names hscopes₁
    rw [caughtAll, List.append_assoc, List.flatMap_cons, hname, hnames]
    exact ⟨hscopes₂, rfl⟩

end

theorem withParams_eq (params : List Param) (scope : LocalScope) (outer : List LocalScope) :
    c.withParams params ⟨scope :: outer⟩ = ⟨(c.parameters params ++ scope) :: outer⟩ := by
  induction params generalizing scope with
  | nil => rfl
  | cons p ps ih =>
    rw [withParams]
    refine (ih ((p.name, c.namedType p.type) :: scope)).trans ?_
    simp [parameters]

end Patterns

section Statements

variable {enclosing : List ClassEntry}

/-- A part with an expression in front of others. -/
theorem names_plain_cons {form : Form} {n : Node} {ns : List Node} {span : Span}
    (h : (Node.plain form (n :: ns) span).isName = false) :
    (Node.plain form (n :: ns) span).names = n.names ++ ns.flatMap Node.names := by
  rw [Node.names_eq_flatMap h]
  rfl

theorem bound_of_isBranch {visible : LocalScope} {s : Stmt} (h : s.isBranch = true) :
    c.bound enclosing visible s = [] := by
  cases s with
  | letBinding => cases h
  | _ => rfl

/-- A node that consists of an expression and of nothing else that has names. -/
theorem ResolvesExpr.names_operand {env : Environment} {e : Expr} {typed : Typed} {form : Form}
    {span : Span} (h : c.ResolvesExpr enclosing env e typed)
    (hform : (Node.plain form [typed.1] span).isName = false) :
    (Node.plain form [typed.1] span).names = c.namesOf (exprUses env.visible e) := by
  rw [names_plain_cons hform, h.names.1]
  exact List.append_nil _

mutual

/-- What is bound comes in front of the innermost scope. -/
theorem ResolvesStmt.names {env env' : Environment} {scope : LocalScope}
    {outer : List LocalScope} {s : Stmt} {n : Node} (henv : env = ⟨scope :: outer⟩)
    (hs : s.wellBranched = true) :
    c.ResolvesStmt enclosing env s n env' →
      env' = ⟨(c.bound enclosing env.visible s ++ scope) :: outer⟩ ∧
        n.names = c.namesOf (c.stmtUses enclosing env.visible s)
  | .letBinding hvalue => by
    rw [stmtUses]
    refine ⟨?_, hvalue.names_operand rfl⟩
    rw [hvalue.names.2, henv]
    rfl
  | .assign hvalue | .returning hvalue => by
    rw [stmtUses]
    exact ⟨henv, hvalue.names_operand rfl⟩
  | .raise hvalue _ => by
    rw [stmtUses, ← hvalue.names.1, Node.names_eq_flatMap rfl]
    exact ⟨henv, List.flatMap_singleton _ _⟩
  | .ifThen hcondition hthen => by
    rw [stmtUses, namesOf_append, ← hcondition.names.1, ← hthen.names hs, names_plain_cons rfl]
    exact ⟨henv, congrArg _ (List.flatMap_singleton _ _)⟩
  | .ifElse helse hcondition hthen => by
    rw [Stmt.wellBranched, Bool.and_eq_true, Bool.and_eq_true] at hs
    obtain ⟨hthenBranched, hbranch, helseBranched⟩ := hs
    -- The second branch comes first, and leaves the scopes as they are.
    obtain ⟨hscopes, hnames⟩ := helse.names henv helseBranched
    rw [bound_of_isBranch hbranch, List.nil_append, ← henv] at hscopes
    subst hscopes
    rw [stmtUses, namesOf_append, namesOf_append, ← hcondition.names.1,
      ← hthen.names hthenBranched, ← hnames, names_plain_cons rfl]
    exact ⟨henv, by simp⟩
  | .whileLoop hcondition hbody => by
    rw [stmtUses, namesOf_append, ← hcondition.names.1, ← hbody.names hs, names_plain_cons rfl]
    exact ⟨henv, congrArg _ (List.flatMap_singleton _ _)⟩
  | .tryCatch hbody hhandlers => by
    rw [Stmt.wellBranched, Bool.and_eq_true] at hs
    rw [stmtUses, Node.names_tryCatch, hbody.names hs.1, hhandlers.names hs.2, namesOf_append]
    exact ⟨henv, List.append_nil _⟩
  | .tryFinally hbody hhandlers hfinalizer => by
    rw [Stmt.wellBranched, Bool.and_eq_true, Bool.and_eq_true] at hs
    obtain ⟨hfirst, hsecond, hlast⟩ := hs
    rw [stmtUses, Node.names_tryCatch, hbody.names hfirst, hhandlers.names hsecond,
      hfinalizer.names hlast, namesOf_append, namesOf_append]
    exact ⟨henv, rfl⟩
  | .block hblock => by
    rw [stmtUses]
    exact ⟨henv, hblock.names hs⟩
  | .expr hexpr => by
    rw [stmtUses]
    exact ⟨henv, hexpr.names.1⟩

theorem ResolvesStmts.names {env env' : Environment} {scope : LocalScope}
    {outer : List LocalScope} {ss : List Stmt} {ns : List Node} (henv : env = ⟨scope :: outer⟩)
    (hss : Stmt.wellBranchedAll ss = true) :
    c.ResolvesStmts enclosing env ss ns env' →
      env' = ⟨(c.boundAll enclosing env.visible ss ++ scope) :: outer⟩ ∧
        ns.flatMap Node.names = c.namesOf (c.stmtsUses enclosing env.visible ss)
  | .nil => by
    rw [stmtsUses]
    exact ⟨henv, rfl⟩
  | .cons hfirst hrest => by
    rw [Stmt.wellBranchedAll, Bool.and_eq_true] at hss
    obtain ⟨hscopes₁, hname⟩ := hfirst.names henv hss.1
    obtain ⟨hscopes₂, hnames⟩ := hrest.names hscopes₁ hss.2
    rw [hscopes₁, Environment.visible_append, ← henv] at hscopes₂ hnames
    rw [stmtsUses, boundAll, List.append_assoc, List.flatMap_cons, hname, hnames, namesOf_append]
    exact ⟨hscopes₂, rfl⟩

theorem ResolvesBlock.names {env : Environment} {b : Block} {n : Node}
    (hb : b.wellBranched = true) :
    c.ResolvesBlock enclosing env b n →
      n.names = c.namesOf (c.blockUses enclosing env.visible b)
  | .mk hstmts => by
    rw [blockUses]
    exact (Node.names_eq_flatMap rfl).trans (hstmts.names rfl hb).2

theorem ResolvesHandler.names {env : Environment} {h : Handler} {clause : Clause}
    (hh : h.wellBranched = true) :
    c.ResolvesHandler enclosing env h clause →
      (Node.clause clause).names = c.namesOf (c.handlerUses enclosing env.visible h)
  | .mk hpattern hguard hbody => by
    obtain ⟨hscopes, hnames⟩ := hpattern.names rfl
    have hvisible := congrArg Environment.visible hscopes
    rw [Environment.visible_append] at hvisible
    rw [handlerUses, Node.names_clause, hnames, hguard.names, hbody.names hh, namesOf_append,
      hvisible]
    rfl

theorem ResolvesHandlers.names {env : Environment} {hs : List Handler} {clauses : List Clause}
    (hhs : Handler.wellBranchedAll hs = true) :
    c.ResolvesHandlers enclosing env hs clauses →
      (clauses.map Node.clause).flatMap Node.names =
        c.namesOf (c.handlersUses enclosing env.visible hs)
  | .nil => by rw [handlersUses]; rfl
  | .cons hfirst hrest => by
    rw [Handler.wellBranchedAll, Bool.and_eq_true] at hhs
    rw [handlersUses, List.map_cons, List.flatMap_cons, hfirst.names hhs.1, hrest.names hhs.2,
      namesOf_append]

end

theorem ResolvesFunction.names {env : Environment} {info : Callable} {params : List Param}
    {body : Block} {x : Extent} {n : Node} (hbody : body.wellBranched = true)
    (h : c.ResolvesFunction enclosing env info params body x n) :
    n.names = c.namesOf (c.functionUses enclosing env.visible params body) := by
  cases h with
  | mk hstmts =>
    have hscopes : c.withParams params env.push = _ := withParams_eq params [] env.scopes
    obtain ⟨-, hnames⟩ := hstmts.names hscopes hbody
    rw [hscopes, Environment.visible_append] at hnames
    rw [functionUses, blockUses]
    exact (Node.names_eq_flatMap rfl).trans hnames

end Statements

section Declarations

mutual

theorem ResolvesClass.names {enclosing : List ClassEntry} {env : Environment}
    {outside : Option String} {k : ClassDecl} {n : Node} (hfinds : c.FindsClass outside k)
    (hk : k.wellBranched = true) :
    c.ResolvesClass enclosing env k n →
      n.names = c.namesOf (c.classUses enclosing env.visible outside k)
  | @ResolvesClass.mk _ _ _ _ _ _ _ params _ _ _ _ _ hinfo hmembers => by
    rw [FindsClass] at hfinds
    obtain ⟨hself, hfinds⟩ := hfinds
    cases hself.symm.trans hinfo
    have hscopes : c.withParams params env.push = _ := withParams_eq params [] env.scopes
    obtain ⟨-, hnames⟩ := hmembers.names hscopes hfinds hk
    rw [hscopes, Environment.visible_append] at hnames
    rw [classUses]
    exact (Node.names_eq_flatMap rfl).trans hnames

theorem ResolvesMembers.names {enclosing : List ClassEntry} {info : ClassEntry}
    {env env' : Environment} {scope : LocalScope} {outer : List LocalScope} {owner : String}
    {index ctors : Nat} {ms : List Member} {ns : List Node} (henv : env = ⟨scope :: outer⟩)
    (hfinds : c.FindsMembers info owner index ctors ms) (hms : Member.wellBranchedAll ms = true) :
    c.ResolvesMembers enclosing info env index ms ns env' →
      env' = ⟨(c.boundAll enclosing env.visible (ms.filterMap Member.statement?) ++ scope) ::
          outer⟩ ∧
        ns.flatMap Node.names = c.namesOf (c.membersUses enclosing env.visible owner ms)
  | .nil => by
    rw [membersUses]
    exact ⟨henv, rfl⟩
  | .func _ hfirst hrest => by
    rw [FindsMembers] at hfinds
    rw [Member.wellBranchedAll, Bool.and_eq_true] at hms
    obtain ⟨hscopes, hnames⟩ := hrest.names henv hfinds.2 hms.2
    rw [membersUses, List.flatMap_cons, hfirst.names hms.1, hnames, namesOf_append]
    exact ⟨hscopes, rfl⟩
  | .ctor _ hfirst hrest => by
    rw [FindsMembers] at hfinds
    rw [Member.wellBranchedAll, Bool.and_eq_true] at hms
    obtain ⟨hscopes, hnames⟩ := hrest.names henv hfinds.2 hms.2
    rw [membersUses, List.flatMap_cons, hfirst.names hms.1, hnames, namesOf_append]
    exact ⟨hscopes, rfl⟩
  | .classDecl hfirst hrest => by
    rw [FindsMembers] at hfinds
    rw [Member.wellBranchedAll, Bool.and_eq_true] at hms
    obtain ⟨hscopes, hnames⟩ := hrest.names henv hfinds.2 hms.2
    rw [membersUses, List.flatMap_cons, hfirst.names hfinds.1 hms.1, hnames, namesOf_append]
    exact ⟨hscopes, rfl⟩
  | .stmt hfirst hrest => by
    rw [FindsMembers] at hfinds
    rw [Member.wellBranchedAll, Bool.and_eq_true] at hms
    obtain ⟨hscopes₁, hname⟩ := hfirst.names henv hms.1
    obtain ⟨hscopes₂, hnames⟩ := hrest.names hscopes₁ hfinds hms.2
    rw [hscopes₁, Environment.visible_append, ← henv] at hscopes₂ hnames
    rw [← List.append_assoc] at hscopes₂
    rw [membersUses, List.flatMap_cons, hname, hnames, namesOf_append]
    exact ⟨hscopes₂, rfl⟩

end

theorem ResolvesItems.names {env env' : Environment} {scope : LocalScope}
    {outer : List LocalScope} {items : List Item} {ns : List Node}
    (h : c.ResolvesItems env items ns env') (henv : env = ⟨scope :: outer⟩)
    (hfinds : ∀ item ∈ items, c.FindsItem item) (hitems : ∀ i ∈ items, i.wellBranched = true) :
    env' = ⟨(c.boundAll [] env.visible (items.filterMap Item.statement?) ++ scope) :: outer⟩ ∧
      ns.flatMap Node.names = c.namesOf (c.itemsUses env.visible items) := by
  induction h generalizing scope with
  | nil => exact ⟨henv, rfl⟩
  | exception _ ih =>
    exact ih henv (List.forall_mem_cons.mp hfinds).2 (List.forall_mem_cons.mp hitems).2
  | func _ hfirst _ ih =>
    obtain ⟨-, hfinds⟩ := List.forall_mem_cons.mp hfinds
    obtain ⟨hitem, hitems⟩ := List.forall_mem_cons.mp hitems
    obtain ⟨hscopes, hnames⟩ := ih henv hfinds hitems
    rw [itemsUses, List.flatMap_cons, hfirst.names hitem, hnames, namesOf_append]
    exact ⟨hscopes, rfl⟩
  | classDecl hfirst _ ih =>
    obtain ⟨hself, hfinds⟩ := List.forall_mem_cons.mp hfinds
    obtain ⟨hitem, hitems⟩ := List.forall_mem_cons.mp hitems
    obtain ⟨hscopes, hnames⟩ := ih henv hfinds hitems
    rw [itemsUses, List.flatMap_cons, hfirst.names hself hitem, hnames, namesOf_append]
    exact ⟨hscopes, rfl⟩
  | stmt hfirst _ ih =>
    obtain ⟨-, hfinds⟩ := List.forall_mem_cons.mp hfinds
    obtain ⟨hitem, hitems⟩ := List.forall_mem_cons.mp hitems
    obtain ⟨hscopes₁, hname⟩ := hfirst.names henv hitem
    obtain ⟨hscopes₂, hnames⟩ := ih hscopes₁ hfinds hitems
    rw [hscopes₁, Environment.visible_append, ← henv] at hscopes₂ hnames
    rw [← List.append_assoc] at hscopes₂
    rw [itemsUses, List.flatMap_cons, hname, hnames, namesOf_append]
    exact ⟨hscopes₂, rfl⟩

end Declarations

end Context

/-- The names in the tree of a program are those of the text, with the types of what is visible. -/
theorem names_of_resolveProgram {s : Site} {p : Program} {program : TypedProgram}
    (hp : p.wellBranched = true) (h : resolveProgram s p = .ok program) :
    program.unit.names = Context.namesOf ⟨s, program.declarations⟩
      (Context.itemsUses ⟨s, program.declarations⟩ [] p.items) := by
  obtain ⟨hdeclarations, -, ⟨body, span, env, hbody, hunit⟩, -⟩ := resolveProgram_ok h
  have hfinds := Context.finds_of_ofProgram hdeclarations
  rw [hunit, Node.names_eq_flatMap rfl]
  exact (hbody.names rfl hfinds (List.all_eq_true.mp hp)).2

end Typing

end CheckedExceptions
