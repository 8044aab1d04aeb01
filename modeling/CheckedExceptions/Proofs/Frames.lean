import CheckedExceptions.Proofs.Walk

/-!
The discipline of the stack. A walk works in the frame that it finds on top: it opens frames of its
own and closes them again, and whatever it finds goes behind the findings that are there. A walk
that fails may leave frames open, but has not touched what was below the frame it started with. What
a walk does to that frame follows from the node alone, whatever was walked over or read before.
-/
namespace CheckedExceptions

namespace Readings

/-- What can be done with a memory of readings. -/
inductive Use
  | read (symbols : List Symbol) (span : Span) (owner : String)
  | forget

def use (r : Readings) : Use → Readings
  | .read symbols span owner => (r.declaredBy symbols span owner).2
  | .forget => {}

/-- A memory that was empty in the beginning and has been used since. -/
def after (uses : List Use) : Readings := uses.foldl use {}

theorem faithful_use {r : Readings} (hr : r.Faithful) (u : Use) : (r.use u).Faithful := by
  cases u with
  | read symbols span owner => exact (declaredBy_faithful hr symbols span owner).2
  | forget => exact faithful_empty

theorem faithful_after (uses : List Use) : (after uses).Faithful := by
  have hrun : ∀ r : Readings, r.Faithful → (uses.foldl use r).Faithful := by
    induction uses with
    | nil => exact fun r hr => hr
    | cons u uses ih => exact fun r hr => ih (r.use u) (faithful_use hr u)
  exact hrun {} faithful_empty

end Readings

namespace Flow

open Event

/-- How an action ends that was started with these findings and with the frames `outer` below the
frame on top: it returns with one frame above them again, or fails with one or more. -/
inductive Ends {α : Type} (findings : List Finding) (outer : List (List Candidate)) :
    EStateM.Result FlowError FlowState α → Prop
  | ok (a : α) {s : FlowState} {top : List Candidate} (hframes : s.scopes.frames = top :: outer)
      (hfindings : findings <+: s.findings) (hfaithful : s.readings.Faithful) :
      Ends findings outer (.ok a s)
  | error {e : FlowError} {s : FlowState} {opened : List (List Candidate)} {top : List Candidate}
      (hscope : e ≠ .scope .noActiveFrame) (hframes : s.scopes.frames = opened ++ top :: outer)
      (hfindings : findings <+: s.findings) : Ends findings outer (.error e s)

theorem Ends.after {α : Type} {findings findings' : List Finding} {outer : List (List Candidate)}
    {result : EStateM.Result FlowError FlowState α} (hmore : findings <+: findings')
    (h : Ends findings' outer result) : Ends findings outer result := by
  cases h with
  | ok a hframes hfindings hfaithful => exact .ok a hframes (hmore.trans hfindings) hfaithful
  | error hscope hframes hfindings => exact .error hscope hframes (hmore.trans hfindings)

/-- From every state with an open frame and a faithful memory, the action ends as it should. -/
def Disciplined {α : Type} (action : Flow α) : Prop :=
  ∀ (s : FlowState) (frame : List Candidate) (outer : List (List Candidate)),
    s.scopes.frames = frame :: outer → s.readings.Faithful → Ends s.findings outer (action s)

variable {r : Rules}

theorem Yields.disciplined {α : Type} {action : Flow α} {a : α} {findings : List Finding}
    {trace : List Event} (h : Yields r action a findings trace) : Disciplined action := by
  intro s frame outer hframes hfaithful
  obtain ⟨s', hrun, hframes', hfindings, hfaithful'⟩ := h s frame outer hframes hfaithful
  rw [hrun]
  exact .ok a hframes' (hfindings ▸ List.prefix_append _ _) hfaithful'

theorem disciplined_throw {α : Type} {e : FlowError} (he : e ≠ .scope .noActiveFrame) :
    Disciplined (throw e : Flow α) := by
  intro s frame outer hframes _
  have hframes' : s.scopes.frames = [] ++ frame :: outer := hframes
  exact .error he hframes' (List.prefix_refl _)

theorem Disciplined.bind {α β : Type} {x : Flow α} {f : α → Flow β} (hx : Disciplined x)
    (hf : ∀ a, Disciplined (f a)) : Disciplined (x >>= f) := by
  intro s frame outer hframes hfaithful
  have hfirst := hx s frame outer hframes hfaithful
  cases hrun : x s with
  | ok a s₁ =>
    rw [hrun] at hfirst
    rw [bind_ok hrun]
    cases hfirst with
    | ok _ hframes₁ hfindings₁ hfaithful₁ =>
      exact (hf a s₁ _ outer hframes₁ hfaithful₁).after hfindings₁
  | error e s₁ =>
    rw [hrun] at hfirst
    rw [bind_error hrun]
    cases hfirst with
    | error hscope hframes₁ hfindings₁ => exact .error hscope hframes₁ hfindings₁

/-- A propagation point whose body fails leaves its own frame open, above the one it was met in. -/
theorem Disciplined.scope {body : Flow (List ExceptionType)} (hbody : Disciplined body) :
    Disciplined (enter >>= fun _ => body >>= leave r) := by
  intro s frame outer hframes hfaithful
  have henter : enter s = .ok () { s with scopes := s.scopes.enter } := rfl
  have hopened : s.scopes.enter.frames = [] :: frame :: outer := by
    rw [Scopes.enter, hframes]
  have hinside := hbody { s with scopes := s.scopes.enter } [] (frame :: outer) hopened hfaithful
  rw [bind_ok henter]
  cases hrun : body { s with scopes := s.scopes.enter } with
  | ok declared s₁ =>
    rw [hrun] at hinside
    rw [bind_ok hrun]
    cases hinside with
    | ok _ hframes₁ hfindings₁ hfaithful₁ =>
      obtain ⟨s₂, hleave, hframes₂, hfindings₂, hreadings₂⟩ := leave_ok (r := r) declared hframes₁
      rw [hleave]
      refine .ok () hframes₂ ?_ (hreadings₂ ▸ hfaithful₁)
      rw [hfindings₂]
      exact hfindings₁.trans (List.prefix_append _ _)
  | error e s₁ =>
    rw [hrun] at hinside
    rw [bind_error hrun]
    cases hinside with
    | @error _ _ opened top hscope hframes₁ hfindings₁ =>
      have hframes' : s₁.scopes.frames = (opened ++ [top]) ++ frame :: outer := by
        rw [hframes₁, List.append_assoc, List.singleton_append]
      exact .error hscope hframes' hfindings₁

mutual

theorem walk_disciplined (r : Rules) : ∀ n : Node, Disciplined (walk r n)
  | .absent => (yields_pure (r := r) ()).disciplined
  | .foreign typeName => disciplined_throw (by simp)
  | .unit body span => by
    have hscope := ((walkAll_disciplined r body).bind fun _ =>
      (yields_pure (r := r) ([] : List ExceptionType)).disciplined).scope (r := r)
    rw [walk]
    simpa only [bind_assoc, pure_bind] using hscope
  | .classDef symbol ctor body span => by
    rw [walk]
    cases hsymbol : symbol.isExempt with
    | true => exact (log_yields (r := r) _).disciplined
    | false =>
      have hdeclared := (declaredByConstructor_yields (r := r) symbol ctor span).disciplined
      cases hctor : ctor.isExempt with
      | true =>
        have hscope := (hdeclared.bind fun declared =>
          ((log_yields (r := r) (.skippedConstructor symbol)).returning declared).disciplined).scope
          (r := r)
        simpa [bind_assoc] using hscope
      | false =>
        have hscope := (hdeclared.bind fun declared => (walkAll_disciplined r body).bind fun _ =>
          (yields_pure (r := r) declared).disciplined).scope (r := r)
        simpa [bind_assoc] using hscope
  | .funcDef symbol params body span => by
    rw [walk]
    cases hsymbol : symbol.isExempt with
    | true => exact (log_yields (r := r) _).disciplined
    | false =>
      have hscope := ((walkAll_disciplined r body).bind fun _ =>
        (declaredByDefinition_yields (r := r) symbol span).disciplined).scope (r := r)
      simpa [bind_assoc] using hscope
  | .tryCatch body clauses finalizer span => by
    rw [walk]
    refine (walk_disciplined r body).bind fun _ => ?_
    refine (catchPoint_yields (r := r) clauses).disciplined.bind fun _ => ?_
    exact (walkClauses_disciplined r clauses).bind fun _ => walk_disciplined r finalizer
  | .clause c => by
    rw [walk]
    exact walkClause_disciplined r c
  | .raise value type span => by
    rw [walk]
    refine (walk_disciplined r value).bind fun _ => ?_
    cases value.thrownType? type with
    | none => exact disciplined_throw (by simp)
    | some t => exact (add_yields (r := r) [⟨span, t⟩]).disciplined
  | .invoke how symbol operands type span => by
    rw [walk]
    refine (walkAll_disciplined r operands).bind fun _ => ?_
    exact (throwDeclared_yields (r := r) symbol span).disciplined
  | .plain form parts span => by
    rw [walk]
    exact walkAll_disciplined r parts

theorem walkAll_disciplined (r : Rules) : ∀ ns : List Node, Disciplined (walkAll r ns)
  | [] => (yields_pure (r := r) ()).disciplined
  | n :: ns => by
    rw [walkAll]
    exact (walk_disciplined r n).bind fun _ => walkAll_disciplined r ns

theorem walkClause_disciplined (r : Rules) : ∀ c : Clause, Disciplined (walkClause r c)
  | .mk pattern guard body span => by
    rw [walkClause]
    refine (walk_disciplined r pattern).bind fun _ => ?_
    exact (walk_disciplined r guard).bind fun _ => walk_disciplined r body

theorem walkClauses_disciplined (r : Rules) : ∀ cs : List Clause, Disciplined (walkClauses r cs)
  | [] => (yields_pure (r := r) ()).disciplined
  | c :: cs => by
    rw [walkClauses]
    exact (walkClause_disciplined r c).bind fun _ => walkClauses_disciplined r cs

end

end Flow

namespace Node

/-- The types that a node takes away from what was thrown before it. -/
def handled (r : Rules) (n : Node) : List ExceptionType := Event.caughtIn (n.trace r.overridden)

/-- What a node throws and does not catch itself. -/
def thrown (r : Rules) (n : Node) : List Candidate :=
  Event.escaping r.classification [] (n.trace r.overridden)

end Node

theorem Event.play_eq (c : Classification) (frame : List Candidate) (trace : List Event) :
    play c frame trace =
      (frame.filter fun x => !c.handles (caughtIn trace) x.type) ++ escaping c [] trace := by
  have hplay := filter_play c [] frame trace
  have hall : (play c frame trace).filter (fun x => !c.handles [] x.type) = play c frame trace :=
    List.filter_eq_self.mpr fun _ _ => rfl
  rwa [hall, List.append_nil] at hplay

/-- From every state with an open frame, a walk over a node that can be walked over returns. What it
finds goes behind the findings, and the frame on top loses the types that the node handles and gets
what the node throws; nothing else on the stack is changed. All this depends on the node and the
rules alone, not on the frames, the earlier findings or what was read before. A walk that fails
keeps all findings and all frames below the one it started with. -/
theorem walk_keeps_to_top_frame (r : Rules) (n : Node) {s : FlowState} {uses : List Readings.Use}
    (hmemory : s.readings = .after uses) {frame : List Candidate} {outer : List (List Candidate)}
    (hframes : s.scopes.frames = frame :: outer) :
    (n.Sound → ∃ s', Flow.walk r n s = .ok () s') ∧
    (∀ s', Flow.walk r n s = .ok () s' →
      s'.scopes.frames =
        ((frame.filter fun x => !r.classification.handles (n.handled r) x.type) ++ n.thrown r) ::
          outer ∧
      s'.findings = s.findings ++ n.findings r) ∧
    ∀ e s', Flow.walk r n s = .error e s' →
      e ≠ .scope .noActiveFrame ∧
      (∃ opened top, s'.scopes.frames = opened ++ top :: outer) ∧ s.findings <+: s'.findings := by
  have hfaithful : s.readings.Faithful := hmemory ▸ Readings.faithful_after uses
  have hreturns := fun hsound => Flow.walk_yields r n hsound s frame outer hframes hfaithful
  refine ⟨fun hsound => ?_, fun s' hrun => ?_, fun e s' hrun => ?_⟩
  · obtain ⟨s', hrun, -⟩ := hreturns hsound
    exact ⟨s', hrun⟩
  · obtain ⟨s₁, hrun₁, hframes₁, hfindings₁, -⟩ := hreturns (Flow.sound_of_walk r n s s' hrun)
    rw [hrun] at hrun₁
    cases hrun₁
    rw [Event.play_eq] at hframes₁
    exact ⟨hframes₁, hfindings₁⟩
  · have hends := Flow.walk_disciplined r n s frame outer hframes hfaithful
    rw [hrun] at hends
    cases hends with
    | error hscope hframes' hfindings => exact ⟨hscope, ⟨_, _, hframes'⟩, hfindings⟩

/-- A state with two open frames, a finding and a memory that was used and cleared. -/
def busyState : FlowState where
  scopes := ⟨[
    [⟨{ line := some 1 }, ⟨"FileNotFoundException"⟩⟩, ⟨{ line := some 2 }, ⟨"Exception"⟩⟩],
    [⟨{ line := some 3 }, ⟨"IOException"⟩⟩]]⟩
  findings := [.unhandled { line := some 4 } ⟨"Exception"⟩]
  readings := .after [.read [⟨"f", .function, []⟩] {} "f", .forget,
    .read [⟨"g", .function, []⟩] {} "g"]

/-- A catch point between two raises, a call of a method that overrides another one, the definition
of that method, and a definition that is exempt. -/
def busyBlock : Node :=
  .plain .block [
    .tryCatch (raiseAt 5 "IOException") [ignoring "IOException"]
      (raiseAt 6 "InterruptedException") {},
    .invoke .call socketRead [] none { line := some 7 },
    .funcDef socketRead [] [raiseAt 9 "Exception"] { line := some 8 },
    exemptRaise 10] {}

/-- The block takes from the frame on top and adds to it, and its findings come behind the earlier
one. A raise of no known type stops a walk inside a definition, behind a unit that was left in good
order. -/
theorem walk_keeps_to_top_frame_of_busyState :
    (∃ s', Flow.walk socketRules busyBlock busyState = .ok () s' ∧
      s'.scopes.frames =
        [[⟨{ line := some 2 }, ⟨"Exception"⟩⟩, ⟨{ line := some 6 }, ⟨"InterruptedException"⟩⟩,
            ⟨{ line := some 7 }, ⟨"InterruptedException"⟩⟩,
            ⟨{ line := some 7 }, ⟨"IOException"⟩⟩],
          [⟨{ line := some 3 }, ⟨"IOException"⟩⟩]] ∧
      s'.findings = busyState.findings ++
        [.cannotOverride { line := some 8 } "read" ⟨"InterruptedException"⟩,
          .unhandled { line := some 9 } ⟨"Exception"⟩]) ∧
    ∃ e s', Flow.walk standardRules
        (.funcDef ⟨"f", .function, []⟩ []
          [.unit [raiseAt 5 "IOException"] {}, .raise .absent none {}] {}) busyState =
          .error e s' ∧
      (∃ opened top, s'.scopes.frames =
        opened ++ top :: [[⟨{ line := some 3 }, ⟨"IOException"⟩⟩]]) ∧
      busyState.findings <+: s'.findings := by
  constructor
  · obtain ⟨hreturns, hframes, -⟩ :=
      walk_keeps_to_top_frame socketRules busyBlock (s := busyState) rfl rfl
    have hsound : busyBlock.Sound := by
      simp [busyBlock, Node.sound_plain, Node.sound_tryCatch, Node.sound_invoke,
        Node.sound_funcDef, sound_raiseAt, sound_ignoring, sound_exemptRaise]
    obtain ⟨s', hrun⟩ := hreturns hsound
    exact ⟨s', hrun, hframes s' hrun⟩
  · obtain ⟨-, -, hfails⟩ := walk_keeps_to_top_frame standardRules
      (.funcDef ⟨"f", .function, []⟩ []
        [.unit [raiseAt 5 "IOException"] {}, .raise .absent none {}] {}) (s := busyState) rfl rfl
    obtain ⟨-, hframes, hfindings⟩ := hfails _ _ rfl
    exact ⟨_, _, rfl, hframes, hfindings⟩

end CheckedExceptions
