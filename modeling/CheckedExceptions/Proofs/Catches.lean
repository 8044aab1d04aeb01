import CheckedExceptions.Proofs.Reach
import CheckedExceptions.Proofs.Steps

/-!
What a node catches. The catch points of a node are those it holds outside the propagation points
inside it; the trace of the node catches nothing else.
-/
namespace CheckedExceptions

namespace Node

def isPoint : Node → Bool
  | unit .. | classDef .. | funcDef .. => true
  | _ => false

/-- The tree itself and what it holds outside the propagation points inside it. -/
def Within : Node → Node → Prop :=
  Relation.ReflTransGen fun n m => n.isPoint = false ∧ m ∈ n.children

/-- No catch point among what the node holds in its own frame catches the type. -/
def CatchesNone (c : Classification) (t : ExceptionType) (n : Node) : Prop :=
  ∀ body clauses finalizer span, n.Within (.tryCatch body clauses finalizer span) →
    c.handles (Clause.types clauses) t = false

/-- What holds of a node holds of every place directly inside it, be it empty or not. -/
theorem CatchesNone.place {c : Classification} {t : ExceptionType} {n m : Node}
    (h : n.CatchesNone c t) (hn : n.isPoint = false) (hm : m = .absent ∨ m ∈ n.children) :
    m.CatchesNone c t := by
  intro body clauses finalizer span hwithin
  rcases hm with rfl | hmem
  · rcases hwithin.cases_head with heq | ⟨k, ⟨-, hk⟩, -⟩
    · cases heq
    · cases hk
  · exact h body clauses finalizer span (.head ⟨hn, hmem⟩ hwithin)

theorem catchesNone_tryCatch {c : Classification} {t : ExceptionType} {body finalizer : Node}
    {clauses : List Clause} {span : Span} (hself : c.handles (Clause.types clauses) t = false)
    (hinside : ∀ m ∈ (Node.tryCatch body clauses finalizer span).children, m.CatchesNone c t) :
    (Node.tryCatch body clauses finalizer span).CatchesNone c t := by
  intro body' clauses' finalizer' span' hwithin
  rcases hwithin.cases_head with heq | ⟨m, ⟨-, hm⟩, hwithin'⟩
  · obtain ⟨-, rfl, -, -⟩ := Node.tryCatch.inj heq
    exact hself
  · exact hinside m hm body' clauses' finalizer' span' hwithin'

theorem catchesNone_of_inside {c : Classification} {t : ExceptionType} {n : Node}
    (hself : ∀ body clauses finalizer span, n ≠ .tryCatch body clauses finalizer span)
    (hinside : ∀ m ∈ n.children, m.CatchesNone c t) : n.CatchesNone c t := by
  intro body clauses finalizer span hwithin
  rcases hwithin.cases_head with heq | ⟨m, ⟨-, hm⟩, hwithin'⟩
  · exact absurd heq (hself body clauses finalizer span)
  · exact hinside m hm body clauses finalizer span hwithin'

theorem mem_present_or_absent {n : Node} {nodes : List Node} (h : n ∈ nodes) :
    n = .absent ∨ n ∈ present nodes := by
  by_cases habs : n = .absent
  · exact Or.inl habs
  · exact Or.inr (mem_present.mpr ⟨h, habs⟩)

end Node

namespace Event

theorem caughtIn_append (trace trace' : List Event) :
    caughtIn (trace ++ trace') = caughtIn trace ++ caughtIn trace' :=
  List.flatMap_append

theorem caughtIn_throws {α : Type} (f : α → Candidate) (l : List α) :
    caughtIn (l.map fun a => throws (f a)) = [] := by
  induction l with
  | nil => rfl
  | cons a rest ih => exact ih

/-- A checked throw that is neither declared nor caught later escapes. -/
theorem mem_escaping {c : Classification} {declared : List ExceptionType} {x : Candidate}
    (hchecked : c.isUnchecked x.type = false) (hdeclared : c.handles declared x.type = false)
    (pre post : List Event) (hpost : c.handles (caughtIn post) x.type = false) :
    x ∈ escaping c declared (pre ++ throws x :: post) := by
  induction pre with
  | nil => simp [escaping, hchecked, hdeclared, hpost]
  | cons event pre ih =>
    cases event with
    | catches types => exact ih
    | throws y =>
      simp only [List.cons_append, escaping]
      split
      · exact ih
      · exact List.mem_cons_of_mem y ih

end Event

open Event

section Catching

variable (r : Rules) (t : ExceptionType)

theorem handles_caughtIn_append {trace trace' : List Event}
    (h : r.classification.handles (caughtIn trace) t = false)
    (h' : r.classification.handles (caughtIn trace') t = false) :
    r.classification.handles (caughtIn (trace ++ trace')) t = false := by
  rw [caughtIn_append, handles_append, h, h']
  rfl

mutual

/-- The catches in the trace of a node are those of the catch points it holds. -/
theorem Node.trace_catchesNone :
    ∀ n : Node, n.CatchesNone r.classification t →
      r.classification.handles (caughtIn (n.trace r.overridden)) t = false
  | .absent, _ | .foreign _, _ | .unit _ _, _ | .classDef _ _ _ _, _ | .funcDef _ _ _ _, _ => by
    rw [Node.trace]
    rfl
  | .tryCatch body clauses finalizer span, h => by
    have hbody : body.CatchesNone r.classification t :=
      h.place rfl (Or.inr (by simp [Node.children]))
    have hfinalizer : finalizer.CatchesNone r.classification t := by
      have hplace : finalizer = .absent ∨ finalizer ∈ Node.present [finalizer] :=
        Node.mem_present_or_absent List.mem_cons_self
      exact h.place rfl (hplace.imp_right (List.mem_append_right _))
    have hclauses : ∀ c ∈ clauses, (Node.clause c).CatchesNone r.classification t := by
      intro c hc
      refine h.place rfl (Or.inr ?_)
      exact List.mem_append_left _ (List.mem_cons_of_mem _ (List.mem_map_of_mem hc))
    have hown :
        r.classification.handles (caughtIn [.catches (Clause.types clauses)]) t = false := by
      have hself := h body clauses finalizer span .refl
      simpa [caughtIn, caught] using hself
    rw [Node.trace]
    exact handles_caughtIn_append r t (Node.trace_catchesNone body hbody)
      (handles_caughtIn_append r t hown
        (handles_caughtIn_append r t (Clause.traceAll_catchesNone clauses hclauses)
          (Node.trace_catchesNone finalizer hfinalizer)))
  | .clause c, h => by
    rw [Node.trace]
    exact Clause.trace_catchesNone c h
  | .raise value type span, h => by
    have hvalue : value.CatchesNone r.classification t :=
      h.place rfl (Or.inr (by simp [Node.children]))
    rw [Node.trace]
    refine handles_caughtIn_append r t (Node.trace_catchesNone value hvalue) ?_
    rw [caughtIn_throws]
    rfl
  | .invoke how symbol operands type span, h => by
    have hoperands : ∀ n ∈ operands, n.CatchesNone r.classification t :=
      fun n hn => h.place rfl (Or.inr hn)
    rw [Node.trace]
    refine handles_caughtIn_append r t (Node.traceAll_catchesNone operands hoperands) ?_
    rw [caughtIn_throws]
    rfl
  | .plain form parts span, h => by
    rw [Node.trace]
    exact Node.traceAll_catchesNone parts fun n hn => h.place rfl (Or.inr hn)

theorem Node.traceAll_catchesNone :
    ∀ ns : List Node, (∀ n ∈ ns, n.CatchesNone r.classification t) →
      r.classification.handles (caughtIn (Node.traceAll r.overridden ns)) t = false
  | [], _ => by
    rw [Node.traceAll]
    rfl
  | n :: ns, h => by
    rw [List.forall_mem_cons] at h
    rw [Node.traceAll]
    exact handles_caughtIn_append r t (Node.trace_catchesNone n h.1)
      (Node.traceAll_catchesNone ns h.2)

theorem Clause.trace_catchesNone :
    ∀ c : Clause, (Node.clause c).CatchesNone r.classification t →
      r.classification.handles (caughtIn (c.trace r.overridden)) t = false
  | .mk pattern guard body span, h => by
    have hpart : ∀ n ∈ [pattern, guard, body], n.CatchesNone r.classification t :=
      fun n hn => h.place rfl (Node.mem_present_or_absent hn)
    rw [Clause.trace]
    exact handles_caughtIn_append r t (Node.trace_catchesNone pattern (hpart _ (by simp)))
      (handles_caughtIn_append r t (Node.trace_catchesNone guard (hpart _ (by simp)))
        (Node.trace_catchesNone body (hpart _ (by simp))))

theorem Clause.traceAll_catchesNone :
    ∀ cs : List Clause, (∀ c ∈ cs, (Node.clause c).CatchesNone r.classification t) →
      r.classification.handles (caughtIn (Clause.traceAll r.overridden cs)) t = false
  | [], _ => by
    rw [Clause.traceAll]
    rfl
  | c :: cs, h => by
    rw [List.forall_mem_cons] at h
    rw [Clause.traceAll]
    exact handles_caughtIn_append r t (Clause.trace_catchesNone c h.1)
      (Clause.traceAll_catchesNone cs h.2)

end

end Catching

end CheckedExceptions
