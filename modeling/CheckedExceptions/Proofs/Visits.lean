import CheckedExceptions.Proofs.Agreement
import CheckedExceptions.Proofs.Walk

/-!
Where a walk comes to, and in which state. A walk over a node starts walks over the nodes inside it,
each in the state that the steps before it have left. Whatever holds of the types that a tree can
throw holds of every candidate on the stack, in every state that a run over the tree comes to. A
clause that catches all these types empties the frame on top.
-/
namespace CheckedExceptions

/-- The state has an open frame and a faithful memory, and only candidates of these types. -/
structure FlowState.Holds (P : ExceptionType → Prop) (s : FlowState) : Prop where
  isOpen : s.scopes.frames ≠ []
  types : ∀ frame ∈ s.scopes.frames, ∀ x ∈ frame, P x.type
  faithful : s.readings.Faithful

/-- What a trace leaves in a frame was there before, or is thrown in the trace. -/
theorem Event.mem_play {c : Classification} {frame : List Candidate} {trace : List Event}
    {x : Candidate} (h : x ∈ play c frame trace) : x ∈ frame ∨ .throws x ∈ trace := by
  induction trace generalizing frame with
  | nil => exact Or.inl h
  | cons event later ih =>
    rcases ih h with hact | hlater
    · cases event with
      | catches types => exact Or.inl (List.mem_filter.mp hact).1
      | throws y =>
        simp only [act] at hact
        split at hact
        · exact Or.inl hact
        · rcases List.mem_append.mp hact with hframe | hy
          · exact Or.inl hframe
          · rw [List.mem_singleton.mp hy]
            exact Or.inr List.mem_cons_self
    · exact Or.inr (List.mem_cons_of_mem _ hlater)

/-- A tree throws only types that are judged in it. -/
theorem Node.JudgesAll.throws {r : Rules} {P : ExceptionType → Prop} {n : Node}
    (h : n.JudgesAll r.overridden P) : ∀ x, .throws x ∈ n.trace r.overridden → P x.type :=
  (Node.agrees (c := r.classification) (fun _ _ => ⟨rfl, fun _ => rfl⟩) n h).throws

namespace Flow

open Relation (ReflTransGen)

/-- A walk over the first node that starts in the first state walks over the second node by itself,
and starts with it in the second state. -/
inductive Calls (r : Rules) : Node × FlowState → Node × FlowState → Prop
  | unit {before after : List Node} {m : Node} {span : Span} {s s₁ s₂ : FlowState}
      (henter : enter s = .ok () s₁) (hbefore : walkAll r before s₁ = .ok () s₂) :
      Calls r (.unit (before ++ m :: after) span, s) (m, s₂)
  | classDef {symbol ctor : Symbol} {before after : List Node} {m : Node} {span : Span}
      {declared : List ExceptionType} {s s₁ s₂ s₃ : FlowState}
      (hsymbol : symbol.isExempt = false) (hctor : ctor.isExempt = false)
      (henter : enter s = .ok () s₁)
      (hdeclared : declaredByConstructor ctor span symbol.name s₁ = .ok declared s₂)
      (hbefore : walkAll r before s₂ = .ok () s₃) :
      Calls r (.classDef symbol ctor (before ++ m :: after) span, s) (m, s₃)
  | funcDef {symbol : Symbol} {params : List String} {before after : List Node} {m : Node}
      {span : Span} {s s₁ s₂ : FlowState} (hsymbol : symbol.isExempt = false)
      (henter : enter s = .ok () s₁) (hbefore : walkAll r before s₁ = .ok () s₂) :
      Calls r (.funcDef symbol params (before ++ m :: after) span, s) (m, s₂)
  | tryBody {body finalizer : Node} {clauses : List Clause} {span : Span} {s : FlowState} :
      Calls r (.tryCatch body clauses finalizer span, s) (body, s)
  | clause {body finalizer : Node} {before after : List Clause} {c : Clause} {span : Span}
      {s s₁ s₂ s₃ : FlowState} (hbody : walk r body s = .ok () s₁)
      (hcatch : catchPoint r (before ++ c :: after) s₁ = .ok () s₂)
      (hbefore : walkClauses r before s₂ = .ok () s₃) :
      Calls r (.tryCatch body (before ++ c :: after) finalizer span, s) (.clause c, s₃)
  | finalizer {body finalizer : Node} {clauses : List Clause} {span : Span}
      {s s₁ s₂ s₃ : FlowState} (hbody : walk r body s = .ok () s₁)
      (hcatch : catchPoint r clauses s₁ = .ok () s₂)
      (hclauses : walkClauses r clauses s₂ = .ok () s₃) :
      Calls r (.tryCatch body clauses finalizer span, s) (finalizer, s₃)
  | pattern {pattern guard body : Node} {span : Span} {s : FlowState} :
      Calls r (.clause (.mk pattern guard body span), s) (pattern, s)
  | guard {pattern guard body : Node} {span : Span} {s s₁ : FlowState}
      (hpattern : walk r pattern s = .ok () s₁) :
      Calls r (.clause (.mk pattern guard body span), s) (guard, s₁)
  | handler {pattern guard body : Node} {span : Span} {s s₁ s₂ : FlowState}
      (hpattern : walk r pattern s = .ok () s₁) (hguard : walk r guard s₁ = .ok () s₂) :
      Calls r (.clause (.mk pattern guard body span), s) (body, s₂)
  | raised {value : Node} {type : Option ExceptionType} {span : Span} {s : FlowState} :
      Calls r (.raise value type span, s) (value, s)
  | operand {how : Invocation} {symbol : Symbol} {before after : List Node} {m : Node}
      {type : Option ExceptionType} {span : Span} {s s₁ : FlowState}
      (hbefore : walkAll r before s = .ok () s₁) :
      Calls r (.invoke how symbol (before ++ m :: after) type span, s) (m, s₁)
  | part {form : Form} {before after : List Node} {m : Node} {span : Span} {s s₁ : FlowState}
      (hbefore : walkAll r before s = .ok () s₁) :
      Calls r (.plain form (before ++ m :: after) span, s) (m, s₁)

/-- A run over the tree, which opens a frame and then walks over the tree, comes to the node in
this state. -/
def Comes (r : Rules) (tree n : Node) (s : FlowState) : Prop :=
  ∃ s₀, enter {} = .ok () s₀ ∧ ReflTransGen (Calls r) (tree, s₀) (n, s)

/-- In a run over the tree, this is a state right after a catch point with these clauses. -/
def Catches (r : Rules) (tree : Node) (clauses : List Clause) (s : FlowState) : Prop :=
  ∃ body finalizer span s₀ s₁, Comes r tree (.tryCatch body clauses finalizer span) s₀ ∧
    walk r body s₀ = .ok () s₁ ∧ catchPoint r clauses s₁ = .ok () s

variable {r : Rules} {P : ExceptionType → Prop}

section States

variable {s : FlowState}

theorem Yields.holds {α : Type} {action : Flow α} {a : α} {findings : List Finding}
    {trace : List Event} (h : Yields r action a findings trace)
    (hthrows : ∀ x, .throws x ∈ trace → P x.type) (hs : s.Holds P) :
    ∃ s', action s = .ok a s' ∧ s'.Holds P := by
  obtain ⟨frame, outer, hframes⟩ := List.exists_cons_of_ne_nil hs.isOpen
  obtain ⟨s', hrun, hframes', -, hfaithful⟩ := h s frame outer hframes hs.faithful
  have hold := hs.types
  rw [hframes, List.forall_mem_cons] at hold
  refine ⟨s', hrun, ?_, ?_, hfaithful⟩
  · rw [hframes']
    exact List.cons_ne_nil _ _
  · rw [hframes', List.forall_mem_cons]
    exact ⟨fun x hx => (Event.mem_play hx).elim (hold.1 x) (hthrows x), hold.2⟩

/-- What an action leaves behind if it has returned. -/
theorem Yields.holds_of_run {α : Type} {action : Flow α} {a b : α} {findings : List Finding}
    {trace : List Event} (h : Yields r action a findings trace)
    (hthrows : ∀ x, .throws x ∈ trace → P x.type) (hs : s.Holds P) {s' : FlowState}
    (hrun : action s = .ok b s') : s'.Holds P := by
  obtain ⟨s₁, hrun₁, hholds⟩ := h.holds hthrows hs
  rw [hrun] at hrun₁
  cases hrun₁
  exact hholds

theorem holds_of_enter (hs : s.Holds P) {s' : FlowState} (henter : enter s = .ok () s') :
    s'.Holds P := by
  cases henter
  exact ⟨List.cons_ne_nil _ _, List.forall_mem_cons.mpr ⟨List.forall_mem_nil _, hs.types⟩,
    hs.faithful⟩

theorem enter_ok (s : FlowState) : ∃ s', enter s = .ok () s' := ⟨_, rfl⟩

end States

/-- The node can be walked over from the state, and both involve these types only. -/
structure Ready (r : Rules) (P : ExceptionType → Prop) (v : Node × FlowState) : Prop where
  sound : v.1.Sound
  judges : v.1.JudgesAll r.overridden P
  holds : v.2.Holds P

theorem Ready.returns {n : Node} {s : FlowState} (h : Ready r P (n, s)) :
    ∃ s', walk r n s = .ok () s' ∧ s'.Holds P :=
  (walk_yields r n h.sound).holds h.judges.throws h.holds

theorem Ready.holds_of_walk {n : Node} {s s' : FlowState} (h : Ready r P (n, s))
    (hrun : walk r n s = .ok () s') : s'.Holds P :=
  (walk_yields r n h.sound).holds_of_run h.judges.throws h.holds hrun

theorem walkClauses_eq (r : Rules) (cs : List Clause) :
    walkClauses r cs = walkAll r (cs.map .clause) := by
  induction cs with
  | nil => rw [walkClauses, List.map_nil, walkAll]
  | cons c cs ih => rw [walkClauses, List.map_cons, walkAll, walk, ih]

section Lists

/-- The nodes can be walked over one after the other, and involve these types only. -/
structure Walkable (r : Rules) (P : ExceptionType → Prop) (ns : List Node) : Prop where
  sound : ∀ n ∈ ns, n.Sound
  judges : ∀ n ∈ ns, n.JudgesAll r.overridden P

variable {ns before after : List Node} {m : Node} {s s' : FlowState}

theorem Walkable.subset (h : Walkable r P ns) (hsub : before ⊆ ns) : Walkable r P before :=
  ⟨fun n hn => h.sound n (hsub hn), fun n hn => h.judges n (hsub hn)⟩

theorem Walkable.returns (h : Walkable r P ns) (hs : s.Holds P) :
    ∃ s', walkAll r ns s = .ok () s' ∧ s'.Holds P :=
  (walkAll_yields r ns h.sound).holds
    (Node.agreesAll (c := r.classification) (fun _ _ => ⟨rfl, fun _ => rfl⟩) ns h.judges).throws hs

theorem Walkable.holds_of_walkAll (h : Walkable r P ns) (hs : s.Holds P)
    (hrun : walkAll r ns s = .ok () s') : s'.Holds P := by
  obtain ⟨s₁, hrun₁, hholds⟩ := h.returns hs
  rw [hrun] at hrun₁
  cases hrun₁
  exact hholds

/-- A walk over a list comes to each node behind the ones before it. -/
theorem Walkable.ready (h : Walkable r P (before ++ m :: after)) (hs : s.Holds P)
    (hrun : walkAll r before s = .ok () s') : Ready r P (m, s') := by
  have hm : m ∈ before ++ m :: after := List.mem_append_right _ List.mem_cons_self
  exact ⟨h.sound m hm, h.judges m hm,
    (h.subset (List.subset_append_left _ _)).holds_of_walkAll hs hrun⟩

theorem Walkable.exists_before (h : Walkable r P ns) (hm : m ∈ ns) (hs : s.Holds P) :
    ∃ before after s', ns = before ++ m :: after ∧ walkAll r before s = .ok () s' := by
  obtain ⟨before, after, rfl⟩ := List.append_of_mem hm
  obtain ⟨s', hrun, -⟩ := (h.subset (List.subset_append_left _ _)).returns hs
  exact ⟨before, after, s', rfl, hrun⟩

end Lists

section Parts

variable {s : FlowState}

/-- The parts of a node, apart from those of catch points and clauses, are walked over as a list. -/
theorem Ready.walkable {n : Node} {ns : List Node} (h : Ready r P (n, s))
    (hsound : n.Sound → ∀ m ∈ ns, m.Sound) (hchildren : ns ⊆ n.children) : Walkable r P ns :=
  ⟨hsound h.sound, fun _ hm => h.judges.child (hchildren hm)⟩

variable {body finalizer : Node} {clauses : List Clause} {span : Span}

theorem Ready.tryBody (h : Ready r P (.tryCatch body clauses finalizer span, s)) :
    Ready r P (body, s) :=
  ⟨((Node.sound_tryCatch ..).mp h.sound).1, h.judges.child List.mem_cons_self, h.holds⟩

theorem Ready.handlers (h : Ready r P (.tryCatch body clauses finalizer span, s)) :
    Walkable r P (clauses.map .clause) := by
  refine h.walkable (fun hsound => ?_) ?_
  · rw [List.forall_mem_map]
    exact ((Node.sound_tryCatch ..).mp hsound).2.1
  · rw [Node.children, List.cons_append]
    exact List.subset_cons_of_subset _ (List.subset_append_left _ _)

theorem Ready.last (h : Ready r P (.tryCatch body clauses finalizer span, s))
    {s' : FlowState} (hs' : s'.Holds P) : Ready r P (finalizer, s') := by
  have hlast : Node.present [finalizer] ⊆
      (Node.tryCatch body clauses finalizer span).children := by
    rw [Node.children, List.cons_append]
    exact List.subset_cons_of_subset _ (List.subset_append_right _ _)
  exact ⟨((Node.sound_tryCatch ..).mp h.sound).2.2,
    h.judges.place hlast (List.mem_singleton_self _), hs'⟩

theorem holds_of_catchPoint {s' : FlowState} (hs : s.Holds P)
    (hrun : catchPoint r clauses s = .ok () s') : s'.Holds P :=
  (catchPoint_yields clauses).holds_of_run (by simp) hs hrun

theorem Ready.clauseParts {pattern guard body : Node}
    (h : Ready r P (.clause (.mk pattern guard body span), s)) {s' : FlowState}
    (hs' : s'.Holds P) :
    Ready r P (pattern, s') ∧ Ready r P (guard, s') ∧ Ready r P (body, s') := by
  obtain ⟨hpattern, hguard, hbody⟩ := (Node.sound_clause ..).mp h.sound
  have hjudges : ∀ m ∈ [pattern, guard, body], m.JudgesAll r.overridden P := fun m hm =>
    h.judges.place (List.Subset.refl _) hm
  simp only [List.forall_mem_cons] at hjudges
  exact ⟨⟨hpattern, hjudges.1, hs'⟩, ⟨hguard, hjudges.2.1, hs'⟩, ⟨hbody, hjudges.2.2.1, hs'⟩⟩

end Parts

/-- One step of a run from node to node keeps all types on the stack among these. -/
theorem Ready.calls {v w : Node × FlowState} (hv : Ready r P v) (h : Calls r v w) :
    Ready r P w := by
  cases h with
  | unit henter hbefore =>
    have hopened := holds_of_enter hv.holds henter
    exact (hv.walkable (Node.sound_unit ..).mp (List.Subset.refl _)).ready hopened hbefore
  | classDef hsymbol hctor henter hdeclared hbefore =>
    have hopened := holds_of_enter hv.holds henter
    have hread := (declaredByConstructor_yields (r := r) _ _ _).holds_of_run
      (by simp) hopened hdeclared
    exact (hv.walkable (fun hsound => (Node.sound_classDef ..).mp hsound hsymbol hctor)
      (List.Subset.refl _)).ready hread hbefore
  | funcDef hsymbol henter hbefore =>
    have hopened := holds_of_enter hv.holds henter
    exact (hv.walkable (fun hsound => (Node.sound_funcDef ..).mp hsound hsymbol)
      (List.Subset.refl _)).ready hopened hbefore
  | tryBody => exact hv.tryBody
  | clause hbody hcatch hbefore =>
    have hcaught := holds_of_catchPoint (hv.tryBody.holds_of_walk hbody) hcatch
    rw [walkClauses_eq] at hbefore
    have hclauses := hv.handlers
    rw [List.map_append, List.map_cons] at hclauses
    exact hclauses.ready hcaught hbefore
  | finalizer hbody hcatch hclauses =>
    have hcaught := holds_of_catchPoint (hv.tryBody.holds_of_walk hbody) hcatch
    rw [walkClauses_eq] at hclauses
    exact hv.last (hv.handlers.holds_of_walkAll hcaught hclauses)
  | pattern => exact (hv.clauseParts hv.holds).1
  | guard hpattern =>
    have hfirst := (hv.clauseParts hv.holds).1.holds_of_walk hpattern
    exact (hv.clauseParts hfirst).2.1
  | handler hpattern hguard =>
    have hfirst := (hv.clauseParts hv.holds).1.holds_of_walk hpattern
    have hsecond := (hv.clauseParts hfirst).2.1.holds_of_walk hguard
    exact (hv.clauseParts hsecond).2.2
  | raised =>
    exact ⟨((Node.sound_raise ..).mp hv.sound).2, hv.judges.child List.mem_cons_self, hv.holds⟩
  | operand hbefore =>
    exact (hv.walkable (Node.sound_invoke ..).mp (List.Subset.refl _)).ready hv.holds hbefore
  | part hbefore =>
    exact (hv.walkable (Node.sound_plain ..).mp (List.Subset.refl _)).ready hv.holds hbefore

/-- A walk over a catch point goes into what is protected, then into its clauses one after the
other, and last into its finalizer. -/
theorem Ready.exists_calls_tryCatch {body finalizer m : Node} {clauses : List Clause} {span : Span}
    {s : FlowState} (h : Ready r P (.tryCatch body clauses finalizer span, s))
    (hm : m ∈ body :: (clauses.map .clause ++ Node.present [finalizer])) :
    ∃ s', Calls r (.tryCatch body clauses finalizer span, s) (m, s') := by
  obtain ⟨s₁, hbody, hs₁⟩ := h.tryBody.returns
  obtain ⟨s₂, hcatch, hs₂⟩ := (catchPoint_yields (r := r) clauses).holds (by simp) hs₁
  rw [List.mem_cons, List.mem_append] at hm
  rcases hm with rfl | hm | hm
  · exact ⟨s, .tryBody⟩
  · obtain ⟨c, hc, rfl⟩ := List.mem_map.mp hm
    obtain ⟨before, after, rfl⟩ := List.append_of_mem hc
    have hfirst := h.handlers.subset (List.map_subset _ (List.subset_append_left before _))
    obtain ⟨s₃, hbefore, -⟩ := hfirst.returns hs₂
    rw [← walkClauses_eq] at hbefore
    exact ⟨s₃, .clause hbody hcatch hbefore⟩
  · obtain ⟨s₃, hclauses, -⟩ := h.handlers.returns hs₂
    rw [← walkClauses_eq] at hclauses
    rw [List.mem_singleton.mp (Node.mem_present.mp hm).1]
    exact ⟨s₃, .finalizer hbody hcatch hclauses⟩

theorem Ready.exists_calls_clause {pattern guard body m : Node} {span : Span} {s : FlowState}
    (h : Ready r P (.clause (.mk pattern guard body span), s)) (hm : m ∈ [pattern, guard, body]) :
    ∃ s', Calls r (.clause (.mk pattern guard body span), s) (m, s') := by
  obtain ⟨s₁, hpattern, hs₁⟩ := (h.clauseParts h.holds).1.returns
  obtain ⟨s₂, hguard, -⟩ := (h.clauseParts hs₁).2.1.returns
  simp only [List.mem_cons, List.not_mem_nil, or_false] at hm
  rcases hm with rfl | rfl | rfl
  · exact ⟨s, .pattern⟩
  · exact ⟨s₁, .guard hpattern⟩
  · exact ⟨s₂, .handler hpattern hguard⟩

/-- A walk goes into every node that can be reached in one step. -/
theorem Ready.exists_calls {n m : Node} {s : FlowState} (h : Ready r P (n, s))
    (hm : m ∈ n.visited) : ∃ s', Calls r (n, s) (m, s') := by
  cases n with
  | absent => cases hm
  | foreign typeName => cases hm
  | unit body span =>
    obtain ⟨s₁, henter⟩ := enter_ok s
    have hopened := holds_of_enter h.holds henter
    have hbody := h.walkable (Node.sound_unit ..).mp (List.Subset.refl _)
    obtain ⟨before, after, s₂, rfl, hbefore⟩ := hbody.exists_before hm hopened
    exact ⟨s₂, .unit henter hbefore⟩
  | classDef symbol ctor body span =>
    rw [Node.visited] at hm
    split at hm
    · cases hm
    · rename_i hexempt
      obtain ⟨hsymbol, hctor⟩ : symbol.isExempt = false ∧ ctor.isExempt = false := by
        simpa using hexempt
      obtain ⟨s₁, henter⟩ := enter_ok s
      have hopened := holds_of_enter h.holds henter
      obtain ⟨s₂, hdeclared, hread⟩ := (declaredByConstructor_yields (r := r) symbol ctor
        span).holds (by simp) hopened
      have hbody := h.walkable (fun hsound => (Node.sound_classDef ..).mp hsound hsymbol hctor)
        (List.Subset.refl _)
      obtain ⟨before, after, s₃, rfl, hbefore⟩ := hbody.exists_before hm hread
      exact ⟨s₃, .classDef hsymbol hctor henter hdeclared hbefore⟩
  | funcDef symbol params body span =>
    rw [Node.visited] at hm
    split at hm
    · cases hm
    · rename_i hexempt
      have hsymbol : symbol.isExempt = false := by simpa using hexempt
      obtain ⟨s₁, henter⟩ := enter_ok s
      have hopened := holds_of_enter h.holds henter
      have hbody := h.walkable (fun hsound => (Node.sound_funcDef ..).mp hsound hsymbol)
        (List.Subset.refl _)
      obtain ⟨before, after, s₂, rfl, hbefore⟩ := hbody.exists_before hm hopened
      exact ⟨s₂, .funcDef hsymbol henter hbefore⟩
  | tryCatch body clauses finalizer span => exact h.exists_calls_tryCatch hm
  | clause c =>
    obtain ⟨pattern, guard, body, span⟩ := c
    exact h.exists_calls_clause (Node.mem_present.mp hm).1
  | raise value type span =>
    rw [List.mem_singleton.mp hm]
    exact ⟨s, .raised⟩
  | invoke how symbol operands type span =>
    have hoperands := h.walkable (Node.sound_invoke ..).mp (List.Subset.refl _)
    obtain ⟨before, after, s₁, rfl, hbefore⟩ := hoperands.exists_before hm h.holds
    exact ⟨s₁, .operand hbefore⟩
  | plain form parts span =>
    have hparts := h.walkable (Node.sound_plain ..).mp (List.Subset.refl _)
    obtain ⟨before, after, s₁, rfl, hbefore⟩ := hparts.exists_before hm h.holds
    exact ⟨s₁, .part hbefore⟩

section Runs

variable {tree n : Node} {s : FlowState} (hsound : tree.Sound)
  (hjudges : tree.JudgesAll r.overridden P)

include hsound hjudges

/-- Wherever a run comes to, all types on the stack are among those that the tree can throw. -/
theorem Comes.ready (h : Comes r tree n s) : Ready r P (n, s) := by
  obtain ⟨s₀, henter, hcalls⟩ := h
  cases henter
  have hbegin : FlowState.Holds P { scopes := ({} : Scopes).enter } :=
    ⟨List.cons_ne_nil _ _, by simp [Scopes.enter], Readings.faithful_empty⟩
  have hkept : ∀ {w}, ReflTransGen (Calls r) (tree, { scopes := ({} : Scopes).enter }) w →
      Ready r P w := by
    intro w hw
    induction hw with
    | refl => exact ⟨hsound, hjudges, hbegin⟩
    | tail _ hcall ih => exact ih.calls hcall
  exact hkept hcalls

/-- A run comes to every node that can be reached. -/
theorem exists_comes (hn : tree.Reached n) : ∃ s, Comes r tree n s := by
  induction hn with
  | refl => exact ⟨_, _, rfl, .refl⟩
  | tail _ hm ih =>
    obtain ⟨s, hcomes⟩ := ih
    obtain ⟨s', hcall⟩ := (hcomes.ready hsound hjudges).exists_calls hm
    obtain ⟨s₀, henter, hcalls⟩ := hcomes
    exact ⟨s', s₀, henter, hcalls.tail hcall⟩

end Runs

/-- A clause that catches every type there is empties the frame on top. -/
theorem Ready.emptied {body finalizer : Node} {clauses : List Clause} {span : Span}
    {s s₁ s₂ : FlowState} (h : Ready r P (.tryCatch body clauses finalizer span, s))
    {top : ExceptionType} (htop : ∀ t, P t → r.classification.isSubtype t top = true)
    {c : Clause} (hc : c ∈ clauses) (hcaught : c.caught? = some top)
    (hbody : walk r body s = .ok () s₁) (hcatch : catchPoint r clauses s₁ = .ok () s₂) :
    ∃ outer, s₂.scopes.frames = [] :: outer := by
  have hs₁ := h.tryBody.holds_of_walk hbody
  obtain ⟨frame, outer, hframes⟩ := List.exists_cons_of_ne_nil hs₁.isOpen
  obtain ⟨s', hrun, hframes', -⟩ :=
    catchPoint_yields (r := r) clauses s₁ frame outer hframes hs₁.faithful
  cases hcatch.symm.trans hrun
  refine ⟨outer, ?_⟩
  rw [hframes', Event.play_catches, List.filter_eq_nil_iff.mpr]
  intro x hx
  have htype : P x.type := hs₁.types frame (hframes ▸ List.mem_cons_self) x hx
  have hhandles : r.classification.handles (Clause.types clauses) x.type = true :=
    List.any_eq_true.mpr ⟨top, List.mem_filterMap.mpr ⟨c, hc, hcaught⟩, htop _ htype⟩
  simp [hhandles]

end Flow

end CheckedExceptions
