import CheckedExceptions.Proofs.Typing.Alike

/-!
Trees of programs that differ in places only. Where the contexts, the classes around and the open
scopes agree apart from places, the rules that give a node to a part of the one program give a node
to the same part of the other program, and the nodes and the scopes behind them agree again.
-/
namespace CheckedExceptions.Typing

open CheckedExceptions.Language

namespace Environment

variable {env env' : Environment} (h : env.unplaced = env'.unplaced)

include h

theorem push_congr : env.push.unplaced = env'.push.unplaced := by
  rw [unplaced_push, unplaced_push, h]

theorem bind_congr (name : String) {type type' : Option ValueType}
    (htype : type.map ValueType.unplaced = type'.map ValueType.unplaced) :
    (env.bind name type).unplaced = (env'.bind name type').unplaced := by
  rw [unplaced_bind, unplaced_bind, h, htype]

theorem bindCaught_congr (binder : String) (t : ExceptionType) :
    (env.bindCaught binder t).unplaced = (env'.bindCaught binder t).unplaced := by
  unfold bindCaught
  split
  · exact h
  · exact bind_congr h binder rfl

end Environment

namespace Context

/-- Two places where names stand for the same. -/
structure Alike (c c' : Context) (enclosing enclosing' : List ClassEntry)
    (env env' : Environment) : Prop where
  contexts : c.Agrees c'
  classes : enclosing.map ClassEntry.unplaced = enclosing'.map ClassEntry.unplaced
  scopes : env.unplaced = env'.unplaced

variable {c c' : Context} {enclosing enclosing' : List ClassEntry}

theorem Alike.move {env env' env₁ env₁' : Environment}
    (h : Alike c c' enclosing enclosing' env env') (hscopes : env₁.unplaced = env₁'.unplaced) :
    Alike c c' enclosing enclosing' env₁ env₁' :=
  ⟨h.contexts, h.classes, hscopes⟩

theorem Agrees.withParams (h : c.Agrees c') (params : List Param) {env env' : Environment}
    (hscopes : env.unplaced = env'.unplaced) :
    (c.withParams params env).unplaced = (c'.withParams params env').unplaced := by
  induction params generalizing env env' with
  | nil => exact hscopes
  | cons p ps ih => exact ih (Environment.bind_congr hscopes p.name (h.namedType p.type))

/-- The scope of a body, behind its parameters. -/
theorem Alike.body {env env' : Environment} (h : Alike c c' enclosing enclosing' env env')
    (params : List Param) :
    Alike c c' enclosing enclosing' (c.withParams params env.push)
      (c'.withParams params env'.push) :=
  h.move (h.contexts.withParams params (Environment.push_congr h.scopes))

theorem Alike.enter {env env' : Environment} (h : Alike c c' enclosing enclosing' env env')
    {info info' : ClassEntry} (hinfo : info.unplaced = info'.unplaced) :
    Alike c c' (info :: enclosing) (info' :: enclosing') env env' := by
  refine ⟨h.contexts, ?_, h.scopes⟩
  rw [List.map_cons, List.map_cons, hinfo, h.classes]

section Expressions

variable {env env' : Environment}

mutual

theorem ResolvesExpr.alike {e : Expr} {typed : Typed}
    (h : Alike c c' enclosing enclosing' env env') :
    c.ResolvesExpr enclosing env e typed → ∀ e' : Expr, e.unplaced = e'.unplaced →
      ∃ typed', c'.ResolvesExpr enclosing' env' e' typed' ∧ typed.unplaced = typed'.unplaced
  | .ref, e', heq => by
    cases e' <;> simp only [Expr.unplaced, reduceCtorEq, Expr.ref.injEq, and_true] at heq
    subst heq
    have hbound := lookup_congr h.scopes
    have htype := fun name => h.contexts.nameType name h.classes (hbound name)
    have hexception := fun name => exception?_congr (join_congr (hbound name))
    refine ⟨_, .ref, ?_⟩
    simp only [Typed.unplaced, Node.unplaced, Node.unplacedAll, htype, hexception]
  | .this, e', heq => by
    cases e' <;> simp only [Expr.unplaced, reduceCtorEq] at heq
    have htype := h.contexts.thisType h.classes (lookup_congr h.scopes "this")
    refine ⟨_, .this, ?_⟩
    simp only [Typed.unplaced, thisNode, Node.unplaced, Node.unplacedAll, htype]
  | .string, e', heq => by
    cases e' <;> simp only [Expr.unplaced, reduceCtorEq, Expr.string.injEq, and_true] at heq
    subst heq
    exact ⟨_, .string, rfl⟩
  | .number hvalue, e', heq => by
    cases e' <;> simp only [Expr.unplaced, reduceCtorEq, Expr.number.injEq, and_true] at heq
    subst heq
    exact ⟨_, .number hvalue, rfl⟩
  | .truth, e', heq => by
    cases e' <;> simp only [Expr.unplaced, reduceCtorEq, Expr.truth.injEq, and_true] at heq
    subst heq
    exact ⟨_, .truth, rfl⟩
  | .call hargs hcall, e', heq => by
    cases e' <;> simp only [Expr.unplaced, reduceCtorEq, Expr.call.injEq, and_true] at heq
    obtain ⟨rfl, heq⟩ := heq
    obtain ⟨nodes', hargs', hnodes⟩ := hargs.alike h _ heq
    obtain ⟨typed', hcall', htyped⟩ := hcall.alike h.contexts h.classes hnodes _
    exact ⟨typed', .call hargs' hcall', htyped⟩
  | .new hargs hnew, e', heq => by
    cases e' <;> simp only [Expr.unplaced, reduceCtorEq, Expr.new.injEq, and_true] at heq
    obtain ⟨rfl, heq⟩ := heq
    obtain ⟨nodes', hargs', hnodes⟩ := hargs.alike h _ heq
    obtain ⟨typed', hnew', htyped⟩ := hnew.alike h.contexts hnodes _
    exact ⟨typed', .new hargs' hnew', htyped⟩
  | .thisCall hinfo hargs, e', heq => by
    cases e' <;> simp only [Expr.unplaced, reduceCtorEq, Expr.thisCall.injEq, and_true] at heq
    obtain ⟨nodes', hargs', hnodes⟩ := hargs.alike h _ heq
    have hheads : enclosing.head?.map ClassEntry.unplaced =
        enclosing'.head?.map ClassEntry.unplaced := by
      rw [← List.head?_map, h.classes, List.head?_map]
    obtain ⟨info', hinfo', hview⟩ := exists_of_map_eq hheads hinfo
    refine ⟨_, .thisCall hinfo' hargs', ?_⟩
    simp only [Typed.unplaced, Node.unplaced, hnodes, unplacedAll_length hnodes,
      ctorOfArity_congr hview]
  | .methodCall hreceiver howner hmethod hargs, e', heq => by
    cases e' <;> simp only [Expr.unplaced, reduceCtorEq, Expr.methodCall.injEq, and_true] at heq
    obtain ⟨hreceiverEq, rfl, hargsEq⟩ := heq
    obtain ⟨receiver', hreceiver', hview⟩ := hreceiver.alike h _ hreceiverEq
    obtain ⟨hnode, htype⟩ := Typed.eq_of_unplaced hview
    obtain ⟨owner', howner', hclass⟩ := exists_of_map_eq (class?_congr htype) howner
    obtain ⟨found', hmethod', hfound⟩ :=
      (h.contexts.declarations.methodOf c.toSite c'.toSite hclass _).of_ok hmethod
    obtain ⟨m', rfl, hm⟩ := exists_of_map_eq hfound rfl
    obtain ⟨nodes', hargs', hnodes⟩ := hargs.alike h _ hargsEq
    have hresult := h.contexts.resultOf hm
    refine ⟨_, .methodCall hreceiver' howner' hmethod' hargs', ?_⟩
    simp only [Typed.unplaced, Node.unplaced, Node.unplacedAll, hnodes, hnode, hresult,
      exception?_congr hresult, (Callable.eq_of_unplaced hm).1]
  | .binary hleft hright, e', heq => by
    cases e' <;> simp only [Expr.unplaced, reduceCtorEq, Expr.binary.injEq, and_true] at heq
    obtain ⟨rfl, hleftEq, hrightEq⟩ := heq
    obtain ⟨l', hleft', hl⟩ := hleft.alike h _ hleftEq
    obtain ⟨r', hright', hr⟩ := hright.alike h _ hrightEq
    refine ⟨_, .binary hleft' hright', ?_⟩
    simp only [Typed.unplaced, Node.unplaced, Node.unplacedAll, (Typed.eq_of_unplaced hl).1,
      (Typed.eq_of_unplaced hr).1]

theorem ResolvesArgs.alike {es : List Expr} {nodes : List Node}
    (h : Alike c c' enclosing enclosing' env env') :
    c.ResolvesArgs enclosing env es nodes →
      ∀ es' : List Expr, Expr.unplacedAll es = Expr.unplacedAll es' →
        ∃ nodes', c'.ResolvesArgs enclosing' env' es' nodes' ∧
          Node.unplacedAll nodes = Node.unplacedAll nodes'
  | .nil, es', heq => by
    cases es' <;> simp only [Expr.unplacedAll, reduceCtorEq] at heq
    exact ⟨[], .nil, rfl⟩
  | .cons hfirst hrest, es', heq => by
    cases es' <;> simp only [Expr.unplacedAll, reduceCtorEq, List.cons.injEq] at heq
    obtain ⟨hfirstEq, hrestEq⟩ := heq
    obtain ⟨typed', hfirst', htyped⟩ := hfirst.alike h _ hfirstEq
    obtain ⟨nodes', hrest', hnodes⟩ := hrest.alike h _ hrestEq
    refine ⟨_, .cons hfirst' hrest', ?_⟩
    rw [Node.unplacedAll, Node.unplacedAll, (Typed.eq_of_unplaced htyped).1, hnodes]

end

theorem ResolvesGuard.alike {guard guard' : Option Expr} {n : Node}
    (h : Alike c c' enclosing enclosing' env env') (hguard : c.ResolvesGuard enclosing env guard n)
    (heq : guard.map Expr.unplaced = guard'.map Expr.unplaced) :
    ∃ n', c'.ResolvesGuard enclosing' env' guard' n' ∧ n.unplaced = n'.unplaced := by
  cases hguard with
  | none =>
    cases eq_none_of_map_eq heq rfl
    exact ⟨_, .none, rfl⟩
  | some hexpr =>
    obtain ⟨e', rfl, he⟩ := exists_of_map_eq heq rfl
    obtain ⟨typed', hexpr', htyped⟩ := hexpr.alike h _ he
    exact ⟨_, .some hexpr', (Typed.eq_of_unplaced htyped).1⟩

end Expressions

mutual

theorem ResolvesPattern.alike {env env' env₁ : Environment} {p : Pattern} {n : Node}
    (h : c.Agrees c') (hscopes : env.unplaced = env'.unplaced) :
    c.ResolvesPattern env p n env₁ → ∀ p' : Pattern, p.unplaced = p'.unplaced →
      ∃ n' env₁', c'.ResolvesPattern env' p' n' env₁' ∧ n.unplaced = n'.unplaced ∧
        env₁.unplaced = env₁'.unplaced
  | .typed hlookup, p', heq => by
    cases p' <;> simp only [Pattern.unplaced, reduceCtorEq, Pattern.typed.injEq, and_true] at heq
    obtain ⟨rfl, rfl⟩ := heq
    exact ⟨_, _, .typed ((h.site.lookup _).trans hlookup), rfl,
      Environment.bindCaught_congr hscopes _ _⟩
  | .bind hget, p', heq => by
    cases p' <;> simp only [Pattern.unplaced, reduceCtorEq, Pattern.bind.injEq, and_true] at heq
    subst heq
    have hget' : c'.hierarchy.get Hierarchy.throwableName =
        c.hierarchy.get Hierarchy.throwableName := by
      rw [Hierarchy.get, Hierarchy.get, h.site Hierarchy.throwableName]
    exact ⟨_, _, .bind (hget'.trans hget), rfl, Environment.bindCaught_congr hscopes _ _⟩
  | .declared hargs hfunction, p', heq => by
    cases p' <;>
      simp only [Pattern.unplaced, reduceCtorEq, Pattern.extractor.injEq, and_true] at heq
    obtain ⟨rfl, heq⟩ := heq
    obtain ⟨nodes', env₁', hargs', hnodes, hscopes'⟩ := hargs.alike h hscopes _ heq
    obtain ⟨f', hf', hf⟩ := exists_of_map_eq (h.declarations.function? _) hfunction
    refine ⟨_, env₁', .declared hargs' hf', ?_, hscopes'⟩
    simp only [Node.unplaced, Node.unplacedAll, hnodes, (Callable.eq_of_unplaced hf).1]
  | .undeclared hargs hfunction, p', heq => by
    cases p' <;>
      simp only [Pattern.unplaced, reduceCtorEq, Pattern.extractor.injEq, and_true] at heq
    obtain ⟨rfl, heq⟩ := heq
    obtain ⟨nodes', env₁', hargs', hnodes, hscopes'⟩ := hargs.alike h hscopes _ heq
    have hfunction' := eq_none_of_map_eq (h.declarations.function? _) hfunction
    refine ⟨_, env₁', .undeclared hargs' hfunction', ?_, hscopes'⟩
    simp only [Node.unplaced, hnodes]

theorem ResolvesPatterns.alike {env env' env₁ : Environment} {ps : List Pattern} {ns : List Node}
    (h : c.Agrees c') (hscopes : env.unplaced = env'.unplaced) :
    c.ResolvesPatterns env ps ns env₁ →
      ∀ ps' : List Pattern, Pattern.unplacedAll ps = Pattern.unplacedAll ps' →
        ∃ ns' env₁', c'.ResolvesPatterns env' ps' ns' env₁' ∧
          Node.unplacedAll ns = Node.unplacedAll ns' ∧ env₁.unplaced = env₁'.unplaced
  | .nil, ps', heq => by
    cases ps' <;> simp only [Pattern.unplacedAll, reduceCtorEq] at heq
    exact ⟨[], _, .nil, rfl, hscopes⟩
  | .cons hfirst hrest, ps', heq => by
    cases ps' <;> simp only [Pattern.unplacedAll, reduceCtorEq, List.cons.injEq] at heq
    obtain ⟨hfirstEq, hrestEq⟩ := heq
    obtain ⟨n', env₁', hfirst', hn, hscopes₁⟩ := hfirst.alike h hscopes _ hfirstEq
    obtain ⟨ns', env₂', hrest', hns, hscopes₂⟩ := hrest.alike h hscopes₁ _ hrestEq
    refine ⟨_, env₂', .cons hfirst' hrest', ?_, hscopes₂⟩
    rw [Node.unplacedAll, Node.unplacedAll, hn, hns]

end

mutual

theorem ResolvesStmt.alike {env env' env₁ : Environment} {s : Stmt} {n : Node}
    (h : Alike c c' enclosing enclosing' env env') :
    c.ResolvesStmt enclosing env s n env₁ → ∀ s' : Stmt, s.unplaced = s'.unplaced →
      ∃ n' env₁', c'.ResolvesStmt enclosing' env' s' n' env₁' ∧ n.unplaced = n'.unplaced ∧
        env₁.unplaced = env₁'.unplaced
  | .letBinding hvalue, s', heq => by
    cases s' <;> simp only [Stmt.unplaced, Stmt.unplaced_ifElse, Stmt.unplaced_tryCatch,
      reduceCtorEq, Stmt.letBinding.injEq, and_true] at heq
    obtain ⟨rfl, rfl, heq⟩ := heq
    obtain ⟨typed', hvalue', htyped⟩ := hvalue.alike h _ heq
    obtain ⟨hnode, htype⟩ := Typed.eq_of_unplaced htyped
    refine ⟨_, _, .letBinding hvalue', ?_, ?_⟩
    · simp only [Node.unplaced, Node.unplacedAll, hnode]
    · exact Environment.bind_congr h.scopes _ (h.contexts.letType _ htype)
  | .assign hvalue, s', heq => by
    cases s' <;> simp only [Stmt.unplaced, Stmt.unplaced_ifElse, Stmt.unplaced_tryCatch,
      reduceCtorEq, Stmt.assign.injEq, and_true] at heq
    obtain ⟨rfl, heq⟩ := heq
    obtain ⟨typed', hvalue', htyped⟩ := hvalue.alike h _ heq
    refine ⟨_, _, .assign hvalue', ?_, h.scopes⟩
    simp only [Node.unplaced, Node.unplacedAll, (Typed.eq_of_unplaced htyped).1]
  | .raise hvalue htype, s', heq => by
    cases s' <;> simp only [Stmt.unplaced, Stmt.unplaced_ifElse, Stmt.unplaced_tryCatch,
      reduceCtorEq, Stmt.raise.injEq, and_true] at heq
    obtain ⟨typed', hvalue', htyped⟩ := hvalue.alike h _ heq
    obtain ⟨hnode, hsame⟩ := Typed.eq_of_unplaced htyped
    refine ⟨_, _, .raise hvalue' ((exception?_congr hsame).symm.trans htype), ?_, h.scopes⟩
    simp only [Node.unplaced, hnode]
  | .returning hvalue, s', heq => by
    cases s' <;> simp only [Stmt.unplaced, Stmt.unplaced_ifElse, Stmt.unplaced_tryCatch,
      reduceCtorEq, Stmt.returning.injEq, and_true] at heq
    obtain ⟨typed', hvalue', htyped⟩ := hvalue.alike h _ heq
    refine ⟨_, _, .returning hvalue', ?_, h.scopes⟩
    simp only [Node.unplaced, Node.unplacedAll, (Typed.eq_of_unplaced htyped).1]
  | .ifThen hcondition hthen, s', heq => by
    cases s' <;> simp only [Stmt.unplaced, Stmt.unplaced_ifElse, Stmt.unplaced_tryCatch,
      reduceCtorEq, Stmt.ifElse.injEq, and_true] at heq
    obtain ⟨hconditionEq, hthenEq, hnone⟩ := heq
    cases Option.map_eq_none_iff.mp hnone.symm
    obtain ⟨test', hcondition', htest⟩ := hcondition.alike h _ hconditionEq
    obtain ⟨node', hthen', hnode⟩ := hthen.alike h _ hthenEq
    refine ⟨_, _, .ifThen hcondition' hthen', ?_, h.scopes⟩
    simp only [Node.unplaced, Node.unplacedAll, (Typed.eq_of_unplaced htest).1, hnode]
  | .ifElse helse hcondition hthen, s', heq => by
    cases s' <;> simp only [Stmt.unplaced, Stmt.unplaced_ifElse, Stmt.unplaced_tryCatch,
      reduceCtorEq, Stmt.ifElse.injEq, and_true] at heq
    obtain ⟨hconditionEq, hthenEq, helseEq⟩ := heq
    obtain ⟨else', rfl, hview⟩ := Option.map_eq_some_iff.mp helseEq.symm
    obtain ⟨other', env₁', helse', hother, hscopes⟩ := helse.alike h _ hview.symm
    obtain ⟨test', hcondition', htest⟩ := hcondition.alike (h.move hscopes) _ hconditionEq
    obtain ⟨node', hthen', hnode⟩ := hthen.alike (h.move hscopes) _ hthenEq
    refine ⟨_, _, .ifElse helse' hcondition' hthen', ?_, hscopes⟩
    simp only [Node.unplaced, Node.unplacedAll, (Typed.eq_of_unplaced htest).1, hnode, hother]
  | .whileLoop hcondition hbody, s', heq => by
    cases s' <;> simp only [Stmt.unplaced, Stmt.unplaced_ifElse, Stmt.unplaced_tryCatch,
      reduceCtorEq, Stmt.whileLoop.injEq, and_true] at heq
    obtain ⟨hconditionEq, hbodyEq⟩ := heq
    obtain ⟨test', hcondition', htest⟩ := hcondition.alike h _ hconditionEq
    obtain ⟨node', hbody', hnode⟩ := hbody.alike h _ hbodyEq
    refine ⟨_, _, .whileLoop hcondition' hbody', ?_, h.scopes⟩
    simp only [Node.unplaced, Node.unplacedAll, (Typed.eq_of_unplaced htest).1, hnode]
  | .tryCatch hbody hhandlers, s', heq => by
    cases s' <;> simp only [Stmt.unplaced, Stmt.unplaced_ifElse, Stmt.unplaced_tryCatch,
      reduceCtorEq, Stmt.tryCatch.injEq, and_true] at heq
    obtain ⟨hbodyEq, hhandlersEq, hnone⟩ := heq
    cases Option.map_eq_none_iff.mp hnone.symm
    obtain ⟨node', hbody', hnode⟩ := hbody.alike h _ hbodyEq
    obtain ⟨clauses', hhandlers', hclauses⟩ := hhandlers.alike h _ hhandlersEq
    refine ⟨_, _, .tryCatch hbody' hhandlers', ?_, h.scopes⟩
    simp only [Node.unplaced, hnode, hclauses]
  | .tryFinally hbody hhandlers hfinalizer, s', heq => by
    cases s' <;> simp only [Stmt.unplaced, Stmt.unplaced_ifElse, Stmt.unplaced_tryCatch,
      reduceCtorEq, Stmt.tryCatch.injEq, and_true] at heq
    obtain ⟨hbodyEq, hhandlersEq, hlastEq⟩ := heq
    obtain ⟨finalizer', rfl, hview⟩ := Option.map_eq_some_iff.mp hlastEq.symm
    obtain ⟨node', hbody', hnode⟩ := hbody.alike h _ hbodyEq
    obtain ⟨clauses', hhandlers', hclauses⟩ := hhandlers.alike h _ hhandlersEq
    obtain ⟨last', hfinalizer', hlast⟩ := hfinalizer.alike h _ hview.symm
    refine ⟨_, _, .tryFinally hbody' hhandlers' hfinalizer', ?_, h.scopes⟩
    simp only [Node.unplaced, hnode, hclauses, hlast]
  | .block hblock, s', heq => by
    cases s' <;> simp only [Stmt.unplaced, Stmt.unplaced_ifElse, Stmt.unplaced_tryCatch,
      reduceCtorEq, Stmt.block.injEq] at heq
    obtain ⟨node', hblock', hnode⟩ := hblock.alike h _ heq
    exact ⟨_, _, .block hblock', hnode, h.scopes⟩
  | .expr hexpr, s', heq => by
    cases s' <;> simp only [Stmt.unplaced, Stmt.unplaced_ifElse, Stmt.unplaced_tryCatch,
      reduceCtorEq, Stmt.expr.injEq] at heq
    obtain ⟨typed', hexpr', htyped⟩ := hexpr.alike h _ heq
    exact ⟨_, _, .expr hexpr', (Typed.eq_of_unplaced htyped).1, h.scopes⟩

theorem ResolvesStmts.alike {env env' env₁ : Environment} {ss : List Stmt} {ns : List Node}
    (h : Alike c c' enclosing enclosing' env env') :
    c.ResolvesStmts enclosing env ss ns env₁ →
      ∀ ss' : List Stmt, Stmt.unplacedAll ss = Stmt.unplacedAll ss' →
        ∃ ns' env₁', c'.ResolvesStmts enclosing' env' ss' ns' env₁' ∧
          Node.unplacedAll ns = Node.unplacedAll ns' ∧ env₁.unplaced = env₁'.unplaced
  | .nil, ss', heq => by
    cases ss' <;> simp only [Stmt.unplacedAll, reduceCtorEq] at heq
    exact ⟨[], _, .nil, rfl, h.scopes⟩
  | .cons hfirst hrest, ss', heq => by
    cases ss' <;> simp only [Stmt.unplacedAll, reduceCtorEq, List.cons.injEq] at heq
    obtain ⟨hfirstEq, hrestEq⟩ := heq
    obtain ⟨n', env₁', hfirst', hn, hscopes₁⟩ := hfirst.alike h _ hfirstEq
    obtain ⟨ns', env₂', hrest', hns, hscopes₂⟩ := hrest.alike (h.move hscopes₁) _ hrestEq
    refine ⟨_, env₂', .cons hfirst' hrest', ?_, hscopes₂⟩
    rw [Node.unplacedAll, Node.unplacedAll, hn, hns]

theorem ResolvesBlock.alike {env env' : Environment} {b : Block} {n : Node}
    (h : Alike c c' enclosing enclosing' env env') :
    c.ResolvesBlock enclosing env b n → ∀ b' : Block, b.unplaced = b'.unplaced →
      ∃ n', c'.ResolvesBlock enclosing' env' b' n' ∧ n.unplaced = n'.unplaced
  | .mk hstmts, .mk stmts' _, heq => by
    simp only [Block.unplaced, Block.mk.injEq, and_true] at heq
    obtain ⟨nodes', inner', hstmts', hnodes, -⟩ :=
      hstmts.alike (h.move (Environment.push_congr h.scopes)) _ heq
    refine ⟨_, .mk hstmts', ?_⟩
    rw [Node.unplaced, Node.unplaced, hnodes]

theorem ResolvesHandler.alike {env env' : Environment} {k : Handler} {clause : Clause}
    (h : Alike c c' enclosing enclosing' env env') :
    c.ResolvesHandler enclosing env k clause → ∀ k' : Handler, k.unplaced = k'.unplaced →
      ∃ clause', c'.ResolvesHandler enclosing' env' k' clause' ∧
        clause.unplaced = clause'.unplaced
  | .mk hpattern hguard hbody, .mk pattern' guard' body' _, heq => by
    simp only [Handler.unplaced, Handler.mk.injEq, and_true] at heq
    obtain ⟨hpatternEq, hguardEq, hbodyEq⟩ := heq
    obtain ⟨p', inner', hpattern', hp, hscopes⟩ :=
      hpattern.alike h.contexts (Environment.push_congr h.scopes) _ hpatternEq
    obtain ⟨g', hguard', hg⟩ := hguard.alike (h.move hscopes) hguardEq
    obtain ⟨b', hbody', hb⟩ := hbody.alike (h.move hscopes) _ hbodyEq
    refine ⟨_, .mk hpattern' hguard' hbody', ?_⟩
    rw [Clause.unplaced, Clause.unplaced, hp, hg, hb]

theorem ResolvesHandlers.alike {env env' : Environment} {ks : List Handler}
    {clauses : List Clause} (h : Alike c c' enclosing enclosing' env env') :
    c.ResolvesHandlers enclosing env ks clauses →
      ∀ ks' : List Handler, Handler.unplacedAll ks = Handler.unplacedAll ks' →
        ∃ clauses', c'.ResolvesHandlers enclosing' env' ks' clauses' ∧
          Clause.unplacedAll clauses = Clause.unplacedAll clauses'
  | .nil, ks', heq => by
    cases ks' <;> simp only [Handler.unplacedAll, reduceCtorEq] at heq
    exact ⟨[], .nil, rfl⟩
  | .cons hfirst hrest, ks', heq => by
    cases ks' <;> simp only [Handler.unplacedAll, reduceCtorEq, List.cons.injEq] at heq
    obtain ⟨hfirstEq, hrestEq⟩ := heq
    obtain ⟨clause', hfirst', hclause⟩ := hfirst.alike h _ hfirstEq
    obtain ⟨clauses', hrest', hclauses⟩ := hrest.alike h _ hrestEq
    refine ⟨_, .cons hfirst' hrest', ?_⟩
    rw [Clause.unplacedAll, Clause.unplacedAll, hclause, hclauses]

end

theorem ResolvesFunction.alike {env env' : Environment} {info info' : Callable}
    {params : List Param} {body body' : Block} {x : Extent} {n : Node}
    (h : Alike c c' enclosing enclosing' env env') (hinfo : info.unplaced = info'.unplaced)
    (hbody : body.unplaced = body'.unplaced) (x' : Extent)
    (hfunction : c.ResolvesFunction enclosing env info params body x n) :
    ∃ n', c'.ResolvesFunction enclosing' env' info' params body' x' n' ∧
      n.unplaced = n'.unplaced := by
  cases hfunction with
  | mk hstmts =>
    obtain ⟨stmts', y'⟩ := body'
    simp only [Block.unplaced, Block.mk.injEq, and_true] at hbody
    obtain ⟨nodes', inner', hstmts', hnodes, -⟩ := hstmts.alike (h.body params) _ hbody
    refine ⟨_, .mk hstmts', ?_⟩
    simp only [Node.unplaced, hnodes, Callable.params_eq_of_unplaced hinfo,
      (Callable.eq_of_unplaced hinfo).1]

mutual

theorem ResolvesClass.alike {enclosing enclosing' : List ClassEntry} {env env' : Environment}
    {k : ClassDecl} {n : Node} (h : Alike c c' enclosing enclosing' env env') :
    c.ResolvesClass enclosing env k n → ∀ k' : ClassDecl, k.unplaced = k'.unplaced →
      ∃ n', c'.ResolvesClass enclosing' env' k' n' ∧ n.unplaced = n'.unplaced
  | .mk hinfo hmembers, .mk markers' name' params' ctorMarkers' parents' members' x', heq => by
    simp only [ClassDecl.unplaced, ClassDecl.mk.injEq, and_true] at heq
    obtain ⟨-, rfl, rfl, -, -, heq⟩ := heq
    obtain ⟨info', hinfo', hview⟩ := exists_of_map_eq (h.contexts.declarations.class? _) hinfo
    obtain ⟨nodes', inner', hmembers', hnodes, -⟩ :=
      hmembers.alike ((h.body _).enter hview) hview _ heq
    obtain ⟨hsymbol, hctor⟩ := ClassEntry.symbols_of_unplaced hview
    refine ⟨_, .mk hinfo' hmembers', ?_⟩
    simp only [Node.unplaced, hnodes, hsymbol, hctor]

theorem ResolvesMembers.alike {enclosing enclosing' : List ClassEntry} {info info' : ClassEntry}
    {env env' env₁ : Environment} {index : Nat} {ms : List Member} {ns : List Node}
    (h : Alike c c' enclosing enclosing' env env') (hinfo : info.unplaced = info'.unplaced) :
    c.ResolvesMembers enclosing info env index ms ns env₁ →
      ∀ ms' : List Member, Member.unplacedAll ms = Member.unplacedAll ms' →
        ∃ ns' env₁', c'.ResolvesMembers enclosing' info' env' index ms' ns' env₁' ∧
          Node.unplacedAll ns = Node.unplacedAll ns' ∧ env₁.unplaced = env₁'.unplaced
  | .nil, ms', heq => by
    cases ms' <;> simp only [Member.unplacedAll, reduceCtorEq] at heq
    exact ⟨[], _, .nil, rfl, h.scopes⟩
  | .func hmethod hfirst hrest, ms', heq => by
    rcases ms' with _ | ⟨_ | _ | _ | _, ms'⟩ <;>
      simp only [Member.unplacedAll, Member.unplaced, reduceCtorEq, List.cons.injEq,
        Member.func.injEq, false_and] at heq
    obtain ⟨hfunction, hrestEq⟩ := heq
    obtain ⟨-, hparams, hbody⟩ := FuncDecl.eq_of_unplaced hfunction
    obtain ⟨m', hmethod', hm⟩ := ClassEntry.methodAt_alike hinfo hmethod
    obtain ⟨n', hfirst', hn⟩ := hfirst.alike h hm hbody _
    obtain ⟨ns', env₁', hrest', hns, hscopes⟩ := hrest.alike h hinfo _ hrestEq
    rw [hparams] at hfirst'
    refine ⟨_, env₁', .func hmethod' hfirst' hrest', ?_, hscopes⟩
    rw [Node.unplacedAll, Node.unplacedAll, hn, hns]
  | .ctor hctor hfirst hrest, ms', heq => by
    rcases ms' with _ | ⟨_ | _ | _ | _, ms'⟩ <;>
      simp only [Member.unplacedAll, Member.unplaced, reduceCtorEq, List.cons.injEq,
        Member.ctor.injEq, false_and] at heq
    obtain ⟨hdecl, hrestEq⟩ := heq
    obtain ⟨hparams, hbody⟩ := CtorDecl.eq_of_unplaced hdecl
    obtain ⟨m', hctor', hm⟩ := ClassEntry.otherCtorAt_alike hinfo hctor
    obtain ⟨n', hfirst', hn⟩ := hfirst.alike h hm hbody _
    obtain ⟨ns', env₁', hrest', hns, hscopes⟩ := hrest.alike h hinfo _ hrestEq
    rw [hparams] at hfirst'
    refine ⟨_, env₁', .ctor hctor' hfirst' hrest', ?_, hscopes⟩
    rw [Node.unplacedAll, Node.unplacedAll, hn, hns]
  | .classDecl hfirst hrest, ms', heq => by
    rcases ms' with _ | ⟨_ | _ | _ | _, ms'⟩ <;>
      simp only [Member.unplacedAll, Member.unplaced, reduceCtorEq, List.cons.injEq,
        Member.classDecl.injEq, false_and] at heq
    obtain ⟨hfirstEq, hrestEq⟩ := heq
    obtain ⟨n', hfirst', hn⟩ := hfirst.alike h _ hfirstEq
    obtain ⟨ns', env₁', hrest', hns, hscopes⟩ := hrest.alike h hinfo _ hrestEq
    refine ⟨_, env₁', .classDecl hfirst' hrest', ?_, hscopes⟩
    rw [Node.unplacedAll, Node.unplacedAll, hn, hns]
  | .stmt hfirst hrest, ms', heq => by
    rcases ms' with _ | ⟨_ | _ | _ | _, ms'⟩ <;>
      simp only [Member.unplacedAll, Member.unplaced, reduceCtorEq, List.cons.injEq,
        Member.stmt.injEq, false_and] at heq
    obtain ⟨hfirstEq, hrestEq⟩ := heq
    obtain ⟨n', env₁', hfirst', hn, hscopes₁⟩ := hfirst.alike h _ hfirstEq
    obtain ⟨ns', env₂', hrest', hns, hscopes₂⟩ := hrest.alike (h.move hscopes₁) hinfo _ hrestEq
    refine ⟨_, env₂', .stmt hfirst' hrest', ?_, hscopes₂⟩
    rw [Node.unplacedAll, Node.unplacedAll, hn, hns]

end

end Context

end CheckedExceptions.Typing
