import CheckedExceptions.Check
import CheckedExceptions.Proofs.Basic
import CheckedExceptions.Proofs.Trace

/-!
The steps of a walk. What a step does is stated for every state with an open frame: it plays a trace
on that frame, leaves all other frames as they were, and adds findings to those it has. So steps
compose; the memory of readings only has to be faithful.
-/
namespace CheckedExceptions

namespace Event

variable (c : Classification)

/-- What one event does to the frame of its propagation point. -/
def act (frame : List Candidate) : Event → List Candidate
  | throws x => if c.isUnchecked x.type then frame else frame ++ [x]
  | catches types => frame.filter fun x => !c.handles types x.type

def play (frame : List Candidate) (trace : List Event) : List Candidate :=
  trace.foldl (act c) frame

theorem play_append (frame : List Candidate) (trace trace' : List Event) :
    play c frame (trace ++ trace') = play c (play c frame trace) trace' :=
  List.foldl_append

theorem play_catches (frame : List Candidate) (types : List ExceptionType) :
    play c frame [catches types] = frame.filter fun x => !c.handles types x.type := rfl

theorem play_throws (frame candidates : List Candidate) :
    play c frame (candidates.map throws) =
      frame ++ candidates.filter fun x => !c.isUnchecked x.type := by
  induction candidates generalizing frame with
  | nil => simp [play]
  | cons x rest ih =>
    change play c (act c frame (throws x)) (rest.map throws) = _
    rw [ih]
    cases hx : c.isUnchecked x.type <;> simp [act, hx]

theorem handles_append (types types' : List ExceptionType) (t : ExceptionType) :
    c.handles (types ++ types') t = (c.handles types t || c.handles types' t) :=
  List.any_append

theorem handles_congr {types types' : List ExceptionType} (h : ∀ t, t ∈ types ↔ t ∈ types')
    (t : ExceptionType) : c.handles types t = c.handles types' t := by
  rw [Bool.eq_iff_iff]
  simp only [Classification.handles, List.any_eq_true]
  constructor
  · rintro ⟨u, hu, hsub⟩
    exact ⟨u, (h u).mp hu, hsub⟩
  · rintro ⟨u, hu, hsub⟩
    exact ⟨u, (h u).mpr hu, hsub⟩

/-- After a trace and a declaration, what is left of the frame before it is what neither handles,
and what is left of the trace is what escapes it. -/
theorem filter_play (declared : List ExceptionType) (frame : List Candidate) (trace : List Event) :
    (play c frame trace).filter (fun x => !c.handles declared x.type) =
      frame.filter (fun x => !c.handles (caughtIn trace ++ declared) x.type) ++
        escaping c declared trace := by
  -- The frame is arbitrary, since every event leaves another one to the rest of the trace.
  induction trace generalizing frame with
  | nil => simp [play, caughtIn, escaping]
  | cons event later ih =>
    change (play c (act c frame event) later).filter _ = _
    rw [ih]
    cases event with
    | catches types =>
      have hcaught : caughtIn (catches types :: later) = types ++ caughtIn later := rfl
      rw [hcaught, List.append_assoc]
      simp only [act, escaping, List.filter_filter, handles_append c types, Bool.not_or,
        Bool.and_comm]
    | throws x =>
      have hcaught : caughtIn (throws x :: later) = caughtIn later := rfl
      rw [hcaught]
      cases hx : c.isUnchecked x.type with
      | true => simp [act, escaping, hx]
      | false =>
        have hact : act c frame (throws x) = frame ++ [x] := by simp [act, hx]
        rw [hact, List.filter_append, List.append_assoc]
        congr 1
        simp only [escaping, hx, List.filter_cons, List.filter_nil, handles_append, Bool.false_or]
        cases hlater : c.handles (caughtIn later) x.type <;>
          cases hdeclared : c.handles declared x.type <;> simp

/-- Nothing waits in a fresh frame, so only what escapes the trace is left. -/
theorem filter_play_nil (declared : List ExceptionType) (trace : List Event) :
    (play c [] trace).filter (fun x => !c.handles declared x.type) = escaping c declared trace := by
  rw [filter_play]
  simp

end Event

namespace Flow

open Event

/-- From every state with an open frame and a faithful memory, the action returns `result`, adds
`findings`, and plays `trace` on the frame on top; the frames below stay as they are. -/
def Yields {α : Type} (r : Rules) (action : Flow α) (result : α) (findings : List Finding)
    (trace : List Event) : Prop :=
  ∀ (s : FlowState) (frame : List Candidate) (outer : List (List Candidate)),
    s.scopes.frames = frame :: outer → s.readings.Faithful →
    ∃ s', action s = .ok result s' ∧
      s'.scopes.frames = play r.classification frame trace :: outer ∧
      s'.findings = s.findings ++ findings ∧ s'.readings.Faithful

variable {r : Rules}

theorem yields_pure {α : Type} (a : α) : Yields r (pure a) a [] [] := by
  intro s frame outer hframes hfaithful
  exact ⟨s, rfl, hframes, (List.append_nil _).symm, hfaithful⟩

theorem Yields.bind {α β : Type} {x : Flow α} {f : α → Flow β} {a : α} {b : β}
    {findings findings' : List Finding} {trace trace' : List Event}
    (hx : Yields r x a findings trace) (hf : Yields r (f a) b findings' trace') :
    Yields r (x >>= f) b (findings ++ findings') (trace ++ trace') := by
  intro s frame outer hframes hfaithful
  obtain ⟨s₁, hrun₁, hframes₁, hfindings₁, hfaithful₁⟩ := hx s frame outer hframes hfaithful
  obtain ⟨s₂, hrun₂, hframes₂, hfindings₂, hfaithful₂⟩ := hf s₁ _ outer hframes₁ hfaithful₁
  refine ⟨s₂, (bind_ok hrun₁).trans hrun₂, ?_, ?_, hfaithful₂⟩
  · rw [hframes₂, play_append]
  · rw [hfindings₂, hfindings₁, List.append_assoc]

theorem Yields.returning {α β : Type} {x : Flow α} {a : α} {findings : List Finding}
    {trace : List Event} (hx : Yields r x a findings trace) (b : β) :
    Yields r (x >>= fun _ => pure b) b findings trace := by
  have h : Yields r (x >>= fun _ => pure b) b (findings ++ []) (trace ++ []) :=
    hx.bind (yields_pure b)
  rwa [List.append_nil, List.append_nil] at h

theorem report_yields (findings : List Finding) : Yields r (report findings) () findings [] := by
  intro s frame outer hframes hfaithful
  exact ⟨{ s with findings := s.findings ++ findings }, rfl, hframes, rfl, hfaithful⟩

theorem log_yields (event : FlowEvent) : Yields r (log event) () [] [] := by
  intro s frame outer hframes hfaithful
  exact ⟨{ s with events := s.events ++ [event] }, rfl, hframes, (List.append_nil _).symm,
    hfaithful⟩

theorem onScopes_ok {α : Type} {operation : Scopes → Except ScopeError (α × Scopes)}
    {s : FlowState} {result : α} {scopes : Scopes} (h : operation s.scopes = .ok (result, scopes)) :
    onScopes operation s = .ok result { s with scopes } := by
  have hget : (get : Flow FlowState) s = .ok s s := rfl
  unfold onScopes
  rw [bind_ok hget, h]
  rfl

theorem add_yields (candidates : List Candidate) :
    Yields r (add r candidates) () [] (candidates.map .throws) := by
  intro s frame outer hframes hfaithful
  have hadd : Scopes.add r.classification candidates s.scopes = .ok
      ((candidates.filter fun x => !r.classification.isUnchecked x.type).length,
        ⟨(frame ++ candidates.filter fun x => !r.classification.isUnchecked x.type) :: outer⟩) := by
    simp only [Scopes.add, hframes]
  refine ⟨_, bind_ok (onScopes_ok hadd), ?_, (List.append_nil _).symm, hfaithful⟩
  rw [play_throws]

/-- A catch point removes what its unguarded type tests catch; that types occur once in what it
looks up makes no difference. -/
theorem catchPoint_yields (clauses : List Clause) :
    Yields r (catchPoint r clauses) () [] [.catches (Clause.types clauses)] := by
  have hsame : ∀ t, r.classification.handles (Clause.caughtTypes clauses) t =
      r.classification.handles (Clause.types clauses) t :=
    handles_congr r.classification fun t => List.mem_eraseDups
  intro s frame outer hframes hfaithful
  have hfilter : Scopes.filter r.classification (Clause.caughtTypes clauses) s.scopes = .ok
      (frame.length - (frame.filter fun x =>
          !r.classification.handles (Clause.types clauses) x.type).length,
        ⟨(frame.filter fun x => !r.classification.handles (Clause.types clauses) x.type) ::
          outer⟩) := by
    simp only [Scopes.filter, hframes, hsame]
  refine ⟨_, (bind_ok (onScopes_ok hfilter)).trans rfl, ?_, (List.append_nil _).symm, hfaithful⟩
  rw [play_catches]

theorem declaredBy_yields (symbols : List Symbol) (span : Span) (owner : String) :
    Yields r (declaredBy symbols span owner) (Declared.declaration symbols span owner) [] [] := by
  intro s frame outer hframes hfaithful
  obtain ⟨hresult, hkept⟩ := Readings.declaredBy_faithful hfaithful symbols span owner
  refine ⟨{ s with readings := (s.readings.declaredBy symbols span owner).2 }, ?_, hframes,
    (List.append_nil _).symm, hkept⟩
  rw [← hresult]
  rfl

theorem declaredByConstructor_yields (symbol ctor : Symbol) (span : Span) :
    Yields r (declaredByConstructor ctor span symbol.name)
      (Declared.constructorTypes symbol ctor span)
      (Declared.constructorFindings symbol ctor span) [] := by
  have hread := declaredBy_yields (r := r) [ctor] span symbol.name
  unfold declaredByConstructor Declared.constructorTypes Declared.constructorFindings
  cases hdecl : Declared.declaration [ctor] span symbol.name with
  | ok types =>
    rw [hdecl] at hread
    exact hread.bind (yields_pure types)
  | error finding =>
    rw [hdecl] at hread
    exact hread.bind ((report_yields [finding]).returning [])

theorem declaredWithOverridden_yields (symbol : Symbol) (span : Span) (owner : String) :
    Yields r (declaredWithOverridden r symbol span owner)
      (Declared.declarationOf r.overridden symbol span owner).toOption
      (Declared.faults (Declared.declarationOf r.overridden symbol span owner)) [] := by
  have hown := declaredBy_yields (r := r) [symbol] span owner
  have hover := declaredBy_yields (r := r) (r.overridden symbol) span owner
  unfold declaredWithOverridden Declared.declarationOf
  cases hdecl : Declared.declaration [symbol] span owner with
  | error finding =>
    rw [hdecl] at hown
    exact hown.bind ((report_yields [finding]).returning none)
  | ok own =>
    rw [hdecl] at hown
    cases hdecl' : Declared.declaration (r.overridden symbol) span owner with
    | error finding =>
      rw [hdecl'] at hover
      exact hown.bind (hover.bind ((report_yields [finding]).returning none))
    | ok inherited =>
      rw [hdecl'] at hover
      exact hown.bind (hover.bind (yields_pure (some (own, inherited))))

theorem throwDeclared_yields (symbol : Symbol) (span : Span) :
    Yields r (throwDeclared r symbol span) () (Declared.invocationFindings r.overridden symbol span)
      ((Declared.thrownBy r.overridden symbol span).map fun t => .throws ⟨span, t⟩) := by
  have hread := declaredWithOverridden_yields (r := r) symbol span symbol.qualifiedName
  unfold throwDeclared Declared.invocationFindings Declared.thrownBy
  cases hdecl : Declared.declarationOf r.overridden symbol span symbol.qualifiedName with
  | error finding =>
    rw [hdecl] at hread
    exact hread.bind (yields_pure ())
  | ok types =>
    rw [hdecl] at hread
    have hadd := add_yields (r := r) ((types.1 ++ types.2).map (Candidate.mk span))
    rw [List.map_map] at hadd
    exact hread.bind hadd

theorem declaredByDefinition_yields (symbol : Symbol) (span : Span) :
    Yields r (declaredByDefinition r symbol span)
      (Declared.definitionTypes r.overridden symbol span)
      (Declared.definitionFindings r.overridden r.classification.isSubtype symbol span) [] := by
  have hread := declaredWithOverridden_yields (r := r) symbol span symbol.name
  unfold declaredByDefinition Declared.definitionTypes Declared.definitionFindings
  cases hdecl : Declared.declarationOf r.overridden symbol span symbol.name with
  | error finding =>
    rw [hdecl] at hread
    exact hread.bind (yields_pure [])
  | ok types =>
    rw [hdecl] at hread
    exact hread.bind ((report_yields _).returning (types.1 ++ types.2))

/-- Leaving reports what is left of the frame on top and uncovers the frames below. -/
theorem leave_ok (declared : List ExceptionType) {s : FlowState} {frame : List Candidate}
    {outer : List (List Candidate)} (hframes : s.scopes.frames = frame :: outer) :
    ∃ s', leave r declared s = .ok () s' ∧ s'.scopes.frames = outer ∧
      s'.findings = s.findings ++
        (frame.filter fun x => !r.classification.handles declared x.type).map
          (fun x => .unhandled x.span x.type) ∧
      s'.readings = s.readings := by
  have hleave : Scopes.leave r.classification declared s.scopes =
      .ok (frame.filter fun x => !r.classification.handles declared x.type, ⟨outer⟩) := by
    simp only [Scopes.leave, hframes]
  exact ⟨_, (bind_ok (onScopes_ok hleave)).trans rfl, rfl, rfl, rfl⟩

/-- A propagation point: whatever is done in a frame of its own, the stack is as before and what
escapes is reported. No frame has to be open around it. -/
theorem scope_ok {body : Flow (List ExceptionType)} {declared : List ExceptionType}
    {findings : List Finding} {trace : List Event} (hbody : Yields r body declared findings trace)
    (s : FlowState) (hfaithful : s.readings.Faithful) :
    ∃ s', (enter >>= fun _ => body >>= leave r) s = .ok () s' ∧
      s'.scopes.frames = s.scopes.frames ∧
      s'.findings = s.findings ++ (findings ++ unhandled r.classification declared trace) ∧
      s'.readings.Faithful := by
  have henter : enter s = .ok () { s with scopes := s.scopes.enter } := rfl
  obtain ⟨s₁, hrun₁, hframes₁, hfindings₁, hfaithful₁⟩ :=
    hbody { s with scopes := s.scopes.enter } [] s.scopes.frames rfl hfaithful
  obtain ⟨s₂, hrun₂, hframes₂, hfindings₂, hreadings₂⟩ := leave_ok (r := r) declared hframes₁
  refine ⟨s₂, ?_, hframes₂, ?_, hreadings₂ ▸ hfaithful₁⟩
  · rw [bind_ok henter, bind_ok hrun₁, hrun₂]
  · rw [hfindings₂, hfindings₁, filter_play_nil, List.append_assoc]
    rfl

theorem Yields.scope {body : Flow (List ExceptionType)} {declared : List ExceptionType}
    {findings : List Finding} {trace : List Event} (hbody : Yields r body declared findings trace) :
    Yields r (enter >>= fun _ => body >>= leave r) ()
      (findings ++ unhandled r.classification declared trace) [] := by
  intro s frame outer hframes hfaithful
  obtain ⟨s', hrun, hframes', hfindings, hfaithful'⟩ := scope_ok hbody s hfaithful
  exact ⟨s', hrun, hframes'.trans hframes, hfindings, hfaithful'⟩

end Flow

end CheckedExceptions
