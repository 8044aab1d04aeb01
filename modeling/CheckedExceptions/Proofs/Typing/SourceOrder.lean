import CheckedExceptions.Proofs.Syntax.Outlines
import CheckedExceptions.Proofs.Syntax.Placement
import CheckedExceptions.Proofs.Typing.Loading
import CheckedExceptions.Proofs.Typing.NodeOrder

/-!
The tree of a program is in the order of its text. Resolving a program makes a node of everything
that has an outline, in the place of that outline. The two nodes that are written nowhere, the
receiver of a call of an own method and the call of an extractor, share the place of the node around
them; they have no parts and come first, so they fit in.
-/
namespace CheckedExceptions

open CheckedExceptions.Language

namespace Typing.Context

open Language.Outline
open Node (Laid)

variable {c : Context} {p q : Position} {x : Extent}

/-- A node with its parts inside it stands where an outline does. -/
theorem laid_node {parts : List Outline} {n : Node} (h : Row p [.mk x parts] q)
    (hspan : n.span? = some (c.span x)) (hparts : Laid c.file x.start n.children x.stop) :
    Laid c.file p [n] q := by
  obtain ⟨hstart, -, hstop⟩ := row_single.mp h
  exact .cons hspan hstart hparts (.nil hstop)

theorem laid_leaf {parts : List Outline} {n : Node} (h : Row p [.mk x parts] q)
    (hspan : n.span? = some (c.span x)) (hparts : n.children = []) : Laid c.file p [n] q := by
  refine laid_node h hspan ?_
  rw [hparts]
  obtain ⟨-, hinside, -⟩ := row_single.mp h
  exact .nil hinside.le

/-- A node that is written nowhere has the place of the node around it. -/
theorem laid_implicit {n : Node} {ns : List Node} (hspan : n.span? = some (c.span x))
    (hparts : n.children = []) (hns : Laid c.file x.start ns x.stop) :
    Laid c.file x.start (n :: ns) x.stop :=
  .sharing hspan hparts (le_refl _) hns.le (le_refl _) hns

theorem Constructs.laid {name : String} {args : List Node} {typed : Typed}
    (hargs : Laid c.file x.start args x.stop) (h : c.Constructs name args x typed) :
    typed.1.span? = some (c.span x) ∧ Laid c.file x.start typed.1.children x.stop := by
  cases h with
  | exception _ => exact ⟨rfl, hargs⟩
  | object _ _ => exact ⟨rfl, hargs⟩

theorem Calls.laid {enclosing : List ClassEntry} {name : String} {args : List Node}
    {typed : Typed} (hargs : Laid c.file x.start args x.stop)
    (h : c.Calls enclosing name args x typed) :
    typed.1.span? = some (c.span x) ∧ Laid c.file x.start typed.1.children x.stop := by
  cases h with
  | method _ => exact ⟨rfl, laid_implicit rfl rfl hargs⟩
  | function _ _ => exact ⟨rfl, hargs⟩
  | new _ _ hnew => exact hnew.laid hargs

section Expressions

variable {enclosing : List ClassEntry}

mutual

theorem ResolvesExpr.laid {env : Environment} {e : Expr} {typed : Typed} {p q : Position}
    (h : Row p [e.outline] q) :
    c.ResolvesExpr enclosing env e typed → Laid c.file p [typed.1] q
  | .ref | .this | .string | .number _ | .truth => laid_leaf h rfl rfl
  | .call hargs hcall => by
    obtain ⟨-, hinside, -⟩ := row_single.mp h
    obtain ⟨hspan, hparts⟩ := hcall.laid (hargs.laid hinside)
    exact laid_node h hspan hparts
  | .new hargs hnew => by
    obtain ⟨-, hinside, -⟩ := row_single.mp h
    obtain ⟨hspan, hparts⟩ := hnew.laid (hargs.laid hinside)
    exact laid_node h hspan hparts
  | .thisCall _ hargs => by
    obtain ⟨-, hinside, -⟩ := row_single.mp h
    exact laid_node h rfl (hargs.laid hinside)
  | .methodCall hreceiver _ _ hargs => by
    obtain ⟨-, hinside, -⟩ := row_single.mp h
    obtain ⟨m, hfirst, hrest⟩ := row_cons.mp hinside
    exact laid_node h rfl ((hreceiver.laid hfirst).append (hargs.laid hrest))
  | .binary hleft hright => by
    obtain ⟨-, hinside, -⟩ := row_single.mp h
    obtain ⟨m, hfirst, hrest⟩ := row_cons.mp hinside
    exact laid_node h rfl ((hleft.laid hfirst).append (hright.laid hrest))

theorem ResolvesArgs.laid {env : Environment} {es : List Expr} {nodes : List Node}
    {p q : Position} (h : Row p (Expr.outlines es) q) :
    c.ResolvesArgs enclosing env es nodes → Laid c.file p nodes q
  | .nil => .nil h.le
  | .cons hfirst hrest => by
    obtain ⟨m, hrow, hrows⟩ := row_cons.mp h
    exact (hfirst.laid hrow).append (hrest.laid hrows)

end

theorem ResolvesGuard.laid {env : Environment} {guard : Option Expr} {n : Node}
    (h : Row p (guard.map Expr.outline).toList q) (hguard : c.ResolvesGuard enclosing env guard n) :
    Laid c.file p (Node.present [n]) q := by
  cases hguard with
  | none => exact .nil h.le
  | some hexpr =>
    have hlaid := hexpr.laid h
    rw [hlaid.present_eq]
    exact hlaid

end Expressions

mutual

theorem ResolvesPattern.laid {env env' : Environment} {pattern : Pattern} {n : Node}
    {p q : Position} (h : Row p [pattern.outline] q) :
    c.ResolvesPattern env pattern n env' → Laid c.file p [n] q
  | .typed _ | .bind _ => laid_leaf h rfl rfl
  | .declared hargs _ => by
    obtain ⟨-, hinside, -⟩ := row_single.mp h
    exact laid_node h rfl (laid_implicit rfl rfl (hargs.laid hinside))
  | .undeclared hargs _ => by
    obtain ⟨-, hinside, -⟩ := row_single.mp h
    exact laid_node h rfl (hargs.laid hinside)

theorem ResolvesPatterns.laid {env env' : Environment} {ps : List Pattern} {ns : List Node}
    {p q : Position} (h : Row p (Pattern.outlines ps) q) :
    c.ResolvesPatterns env ps ns env' → Laid c.file p ns q
  | .nil => .nil h.le
  | .cons hfirst hrest => by
    obtain ⟨m, hrow, hrows⟩ := row_cons.mp h
    exact (hfirst.laid hrow).append (hrest.laid hrows)

end

/-- The parts of a clause, of which only the guard may be absent. -/
theorem laid_clause {m m' : Position} {pattern guard body : Node} (span : Span)
    (hpattern : Laid c.file p [pattern] m) (hguard : Laid c.file m (Node.present [guard]) m')
    (hbody : Laid c.file m' [body] q) :
    Laid c.file p (Node.clause (.mk pattern guard body span)).children q := by
  have hparts : (Node.clause (.mk pattern guard body span)).children =
      Node.present [pattern] ++ (Node.present [guard] ++ Node.present [body]) := by
    simp only [Node.children, Node.present, ← List.filter_append, List.singleton_append]
  rw [hparts, hpattern.present_eq, hbody.present_eq]
  exact hpattern.append (hguard.append hbody)

section Statements

variable {enclosing : List ClassEntry}

mutual

theorem ResolvesStmt.laid {env env' : Environment} {s : Stmt} {n : Node} {p q : Position}
    (h : Row p [s.outline] q) : c.ResolvesStmt enclosing env s n env' → Laid c.file p [n] q
  | .letBinding hvalue | .assign hvalue | .returning hvalue | .raise hvalue _ => by
    obtain ⟨-, hinside, -⟩ := row_single.mp h
    exact laid_node h rfl (hvalue.laid hinside)
  | .ifThen hcondition hthen => by
    obtain ⟨-, hinside, -⟩ := row_single.mp h
    obtain ⟨m, hfirst, hrest⟩ := row_cons.mp hinside
    exact laid_node h rfl ((hcondition.laid hfirst).append (hthen.laid hrest))
  | .ifElse helse hcondition hthen => by
    obtain ⟨-, hinside, -⟩ := row_single.mp h
    obtain ⟨m, hfirst, hbranches⟩ := row_cons.mp hinside
    obtain ⟨m', hsecond, hlast⟩ := row_cons.mp hbranches
    -- The branch behind `else` is resolved first and still stands last.
    have hbehind := (hthen.laid hsecond).append (helse.laid hlast)
    exact laid_node h rfl ((hcondition.laid hfirst).append hbehind)
  | .whileLoop hcondition hbody => by
    obtain ⟨-, hinside, -⟩ := row_single.mp h
    obtain ⟨m, hfirst, hrest⟩ := row_cons.mp hinside
    exact laid_node h rfl ((hcondition.laid hfirst).append (hbody.laid hrest))
  | @ResolvesStmt.tryCatch _ _ _ _ _ x _ _ hbody hhandlers => by
    obtain ⟨-, hinside, -⟩ := row_single.mp h
    obtain ⟨m, hfirst, hrest⟩ := row_cons.mp hinside
    have hbehind := (hhandlers.laid hrest).append (.nil (le_refl x.stop))
    exact laid_node h rfl ((hbody.laid hfirst).append hbehind)
  | .tryFinally hbody hhandlers hfinalizer => by
    obtain ⟨-, hinside, -⟩ := row_single.mp h
    obtain ⟨m, hfirst, hclauses⟩ := row_cons.mp hinside
    obtain ⟨m', hsecond, hlast⟩ := row_append.mp hclauses
    have hlaid := hfinalizer.laid hlast
    have hbehind := (hhandlers.laid hsecond).append hlaid
    rw [← hlaid.present_eq] at hbehind
    exact laid_node h rfl ((hbody.laid hfirst).append hbehind)
  | .block hblock => hblock.laid h
  | .expr hexpr => hexpr.laid h

theorem ResolvesStmts.laid {env env' : Environment} {ss : List Stmt} {ns : List Node}
    {p q : Position} (h : Row p (Stmt.outlines ss) q) :
    c.ResolvesStmts enclosing env ss ns env' → Laid c.file p ns q
  | .nil => .nil h.le
  | .cons hfirst hrest => by
    obtain ⟨m, hrow, hrows⟩ := row_cons.mp h
    exact (hfirst.laid hrow).append (hrest.laid hrows)

theorem ResolvesBlock.laid {env : Environment} {b : Block} {n : Node} {p q : Position}
    (h : Row p [b.outline] q) : c.ResolvesBlock enclosing env b n → Laid c.file p [n] q
  | .mk hstmts => by
    obtain ⟨-, hinside, -⟩ := row_single.mp h
    exact laid_node h rfl (hstmts.laid hinside)

theorem ResolvesHandler.laid {env : Environment} {handler : Handler} {clause : Clause}
    {p q : Position} (h : Row p [handler.outline] q) :
    c.ResolvesHandler enclosing env handler clause → Laid c.file p [.clause clause] q
  | .mk hpattern hguard hbody => by
    obtain ⟨-, hinside, -⟩ := row_single.mp h
    obtain ⟨m, hfirst, hbehind⟩ := row_append.mp hinside
    obtain ⟨m', hsecond, hlast⟩ := row_append.mp hbehind
    exact laid_node h rfl
      (laid_clause _ (hpattern.laid hfirst) (hguard.laid hsecond) (hbody.laid hlast))

theorem ResolvesHandlers.laid {env : Environment} {hs : List Handler} {clauses : List Clause}
    {p q : Position} (h : Row p (Handler.outlines hs) q) :
    c.ResolvesHandlers enclosing env hs clauses → Laid c.file p (clauses.map .clause) q
  | .nil => .nil h.le
  | .cons hfirst hrest => by
    obtain ⟨m, hrow, hrows⟩ := row_cons.mp h
    exact (hfirst.laid hrow).append (hrest.laid hrows)

end

theorem ResolvesFunction.laid {env : Environment} {info : Callable} {params : List Param}
    {body : Block} {n : Node} (h : Row p [.mk x body.parts] q)
    (hfunction : c.ResolvesFunction enclosing env info params body x n) :
    Laid c.file p [n] q := by
  cases hfunction with
  | mk hstmts =>
    obtain ⟨-, hinside, -⟩ := row_single.mp h
    exact laid_node h rfl (hstmts.laid hinside)

end Statements

mutual

theorem ResolvesClass.laid {enclosing : List ClassEntry} {env : Environment} {k : ClassDecl}
    {n : Node} {p q : Position} (h : Row p [k.outline] q) :
    c.ResolvesClass enclosing env k n → Laid c.file p [n] q
  | .mk _ hmembers => by
    obtain ⟨-, hinside, -⟩ := row_single.mp h
    exact laid_node h rfl (hmembers.laid hinside)

theorem ResolvesMembers.laid {enclosing : List ClassEntry} {info : ClassEntry}
    {env env' : Environment} {index : Nat} {ms : List Member} {ns : List Node} {p q : Position}
    (h : Row p (Member.outlines ms) q) :
    c.ResolvesMembers enclosing info env index ms ns env' → Laid c.file p ns q
  | .nil => .nil h.le
  | .func _ hfirst hrest => by
    obtain ⟨m, hrow, hrows⟩ := row_cons.mp h
    exact (hfirst.laid hrow).append (hrest.laid hrows)
  | .ctor _ hfirst hrest => by
    obtain ⟨m, hrow, hrows⟩ := row_cons.mp h
    exact (hfirst.laid hrow).append (hrest.laid hrows)
  | .classDecl hfirst hrest => by
    obtain ⟨m, hrow, hrows⟩ := row_cons.mp h
    exact (hfirst.laid hrow).append (hrest.laid hrows)
  | .stmt hfirst hrest => by
    obtain ⟨m, hrow, hrows⟩ := row_cons.mp h
    exact (hfirst.laid hrow).append (hrest.laid hrows)

end

theorem ResolvesItems.laid {env env' : Environment} {items : List Item} {ns : List Node}
    (h : Row p (items.flatMap Item.outlines) q) (hitems : c.ResolvesItems env items ns env') :
    Laid c.file p ns q := by
  induction hitems generalizing p with
  | nil => exact .nil h.le
  | exception _ ih =>
    obtain ⟨m, hrow, hrows⟩ := row_append.mp h
    exact (ih hrows).mono hrow.le (le_refl q)
  | func _ hfirst _ ih =>
    obtain ⟨m, hrow, hrows⟩ := row_append.mp h
    exact (hfirst.laid hrow).append (ih hrows)
  | classDecl hfirst _ ih =>
    obtain ⟨m, hrow, hrows⟩ := row_append.mp h
    exact (hfirst.laid hrow).append (ih hrows)
  | stmt hfirst _ ih =>
    obtain ⟨m, hrow, hrows⟩ := row_append.mp h
    exact (hfirst.laid hrow).append (ih hrows)

end Typing.Context

end CheckedExceptions
