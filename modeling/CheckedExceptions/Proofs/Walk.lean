import CheckedExceptions.Proofs.Reach
import CheckedExceptions.Proofs.Steps
import CheckedExceptions.Proofs.Subtyping

/-!
The walk follows the traces. Started with some frame on top of the stack, it plays the trace of the
node on that frame and adds the findings of the node to those it has, if every node that it comes to
can be walked over; and it returns on no other tree.
-/
namespace CheckedExceptions

namespace Flow

open Event

mutual

theorem walk_yields (r : Rules) :
    ∀ n : Node, n.Sound → Yields r (walk r n) () (n.findings r) (n.trace r.overridden)
  | .absent, _ => yields_pure ()
  | .foreign typeName, h => absurd h (Node.not_sound_foreign typeName)
  | .unit body span, h => by
    have hbody := walkAll_yields r body ((Node.sound_unit body span).mp h)
    rw [walk, Node.findings, Node.trace]
    have hscope := (hbody.returning ([] : List ExceptionType)).scope
    simpa only [bind_assoc, pure_bind] using hscope
  | .classDef symbol ctor body span, h => by
    rw [walk, Node.findings, Node.trace]
    cases hsymbol : symbol.isExempt with
    | true => exact log_yields _
    | false =>
      have hdeclared := declaredByConstructor_yields (r := r) symbol ctor span
      cases hctor : ctor.isExempt with
      | true =>
        -- The body is left out, so nothing can escape whatever is declared.
        have hscope := (hdeclared.bind
          (f := fun declared => log (.skippedConstructor symbol) >>= fun _ => pure declared)
          ((log_yields _).returning _)).scope
        simpa [bind_assoc, unhandled, escaping] using hscope
      | false =>
        have hbody := walkAll_yields r body
          ((Node.sound_classDef symbol ctor body span).mp h hsymbol hctor)
        have hscope := (hdeclared.bind
          (f := fun declared => walkAll r body >>= fun _ => pure declared)
          (hbody.returning _)).scope
        simpa [bind_assoc] using hscope
  | .funcDef symbol params body span, h => by
    rw [walk, Node.findings, Node.trace]
    cases hsymbol : symbol.isExempt with
    | true => exact log_yields _
    | false =>
      have hbody := walkAll_yields r body
        ((Node.sound_funcDef symbol params body span).mp h hsymbol)
      have hscope := (hbody.bind (f := fun _ => declaredByDefinition r symbol span)
        (declaredByDefinition_yields symbol span)).scope
      simpa [bind_assoc] using hscope
  | .tryCatch body clauses finalizer span, h => by
    obtain ⟨hbody, hclauses, hfinalizer⟩ :=
      (Node.sound_tryCatch body clauses finalizer span).mp h
    rw [walk, Node.findings, Node.trace]
    exact (walk_yields r body hbody).bind ((catchPoint_yields clauses).bind
      ((walkClauses_yields r clauses hclauses).bind (walk_yields r finalizer hfinalizer)))
  | .clause c, h => by
    rw [walk, Node.findings, Node.trace]
    exact walkClause_yields r c h
  | .raise value type span, h => by
    obtain ⟨htype, hvalue⟩ := (Node.sound_raise value type span).mp h
    obtain ⟨t, ht⟩ := Option.isSome_iff_exists.mp htype
    have hwalk := walk_yields r value hvalue
    rw [walk, Node.findings, Node.trace]
    have hadd := hwalk.bind (f := fun _ => add r [⟨span, t⟩]) (add_yields [⟨span, t⟩])
    simpa [ht] using hadd
  | .invoke how symbol operands type span, h => by
    have hoperands := walkAll_yields r operands
      ((Node.sound_invoke how symbol operands type span).mp h)
    rw [walk, Node.findings, Node.trace]
    exact hoperands.bind (throwDeclared_yields symbol span)
  | .plain form parts span, h => by
    rw [walk, Node.findings, Node.trace]
    exact walkAll_yields r parts ((Node.sound_plain form parts span).mp h)

theorem walkAll_yields (r : Rules) :
    ∀ ns : List Node, (∀ n ∈ ns, n.Sound) →
      Yields r (walkAll r ns) () (Node.findingsAll r ns) (Node.traceAll r.overridden ns)
  | [], _ => yields_pure ()
  | n :: ns, h => by
    rw [List.forall_mem_cons] at h
    rw [walkAll, Node.findingsAll, Node.traceAll]
    exact (walk_yields r n h.1).bind (walkAll_yields r ns h.2)

theorem walkClause_yields (r : Rules) :
    ∀ c : Clause, (Node.clause c).Sound →
      Yields r (walkClause r c) () (c.findings r) (c.trace r.overridden)
  | .mk pattern guard body span, h => by
    obtain ⟨hpattern, hguard, hbody⟩ := (Node.sound_clause pattern guard body span).mp h
    rw [walkClause, Clause.findings, Clause.trace]
    exact (walk_yields r pattern hpattern).bind
      ((walk_yields r guard hguard).bind (walk_yields r body hbody))

theorem walkClauses_yields (r : Rules) :
    ∀ cs : List Clause, (∀ c ∈ cs, (Node.clause c).Sound) →
      Yields r (walkClauses r cs) () (Clause.findingsAll r cs) (Clause.traceAll r.overridden cs)
  | [], _ => yields_pure ()
  | c :: cs, h => by
    rw [List.forall_mem_cons] at h
    rw [walkClauses, Clause.findingsAll, Clause.traceAll]
    exact (walkClause_yields r c h.1).bind (walkClauses_yields r cs h.2)

end

/-- A run opens and closes one frame around the walk over the tree. -/
theorem run_eq (r : Rules) (tree : Node) :
    run r tree = set ({} : FlowState) >>= fun _ =>
      (enter >>= fun _ => (walk r tree >>= fun _ => pure []) >>= leave r) >>= fun _ =>
        get >>= fun s => pure s.findings := by
  simp only [run, bind_assoc, pure_bind]

/-- A run over a sound tree returns the findings of the tree, whatever the state was before. -/
theorem run_ok (r : Rules) (tree : Node) (h : tree.Sound) (s : FlowState) :
    ∃ s', run r tree s = .ok (tree.allFindings r) s' := by
  have hset : (set ({} : FlowState) : Flow PUnit) s = .ok ⟨⟩ {} := rfl
  obtain ⟨s', hrun, -, hfindings, -⟩ := scope_ok
    ((walk_yields r tree h).returning ([] : List ExceptionType)) {} Readings.faithful_empty
  have hget : (get : Flow FlowState) s' = .ok s' s' := rfl
  have hall : s'.findings = tree.allFindings r := hfindings
  refine ⟨s', ?_⟩
  rw [run_eq, bind_ok hset, bind_ok hrun, bind_ok hget, hall]
  rfl

mutual

/-- A walk that returns has only come to nodes that can be walked over. -/
theorem sound_of_walk (r : Rules) :
    ∀ (n : Node) (s s' : FlowState), walk r n s = .ok () s' → n.Sound
  | .absent, _, _, _ => Node.sound_absent
  | .foreign typeName, s, s', h => by
    rw [walk] at h
    cases h
  | .unit body span, s, s', h => by
    rw [walk] at h
    obtain ⟨_, s₁, -, h⟩ := bind_inv h
    obtain ⟨_, s₂, hbody, -⟩ := bind_inv h
    exact (Node.sound_unit body span).mpr (sound_of_walkAll r body s₁ s₂ hbody)
  | .classDef symbol ctor body span, s, s', h => by
    rw [Node.sound_classDef]
    intro hsymbol hctor
    simp only [walk, hsymbol, hctor, Bool.false_eq_true, ↓reduceIte] at h
    obtain ⟨_, s₁, -, h⟩ := bind_inv h
    obtain ⟨_, s₂, -, h⟩ := bind_inv h
    obtain ⟨_, s₃, hbody, -⟩ := bind_inv h
    exact sound_of_walkAll r body s₂ s₃ hbody
  | .funcDef symbol params body span, s, s', h => by
    rw [Node.sound_funcDef]
    intro hsymbol
    simp only [walk, hsymbol, Bool.false_eq_true, ↓reduceIte] at h
    obtain ⟨_, s₁, -, h⟩ := bind_inv h
    obtain ⟨_, s₂, hbody, -⟩ := bind_inv h
    exact sound_of_walkAll r body s₁ s₂ hbody
  | .tryCatch body clauses finalizer span, s, s', h => by
    rw [walk] at h
    obtain ⟨_, s₁, hbody, h⟩ := bind_inv h
    obtain ⟨_, s₂, -, h⟩ := bind_inv h
    obtain ⟨_, s₃, hclauses, hfinalizer⟩ := bind_inv h
    exact (Node.sound_tryCatch body clauses finalizer span).mpr
      ⟨sound_of_walk r body s s₁ hbody, sound_of_walkClauses r clauses s₂ s₃ hclauses,
        sound_of_walk r finalizer s₃ s' hfinalizer⟩
  | .clause c, s, s', h => by
    rw [walk] at h
    exact sound_of_walkClause r c s s' h
  | .raise value type span, s, s', h => by
    rw [walk] at h
    obtain ⟨_, s₁, hvalue, h⟩ := bind_inv h
    refine (Node.sound_raise value type span).mpr ⟨?_, sound_of_walk r value s s₁ hvalue⟩
    -- A raise of no known type would have stopped the walk.
    cases htype : value.thrownType? type with
    | none =>
      rw [htype] at h
      cases h
    | some t => rfl
  | .invoke how symbol operands type span, s, s', h => by
    rw [walk] at h
    obtain ⟨_, s₁, hoperands, -⟩ := bind_inv h
    exact (Node.sound_invoke how symbol operands type span).mpr
      (sound_of_walkAll r operands s s₁ hoperands)
  | .plain form parts span, s, s', h => by
    rw [walk] at h
    exact (Node.sound_plain form parts span).mpr (sound_of_walkAll r parts s s' h)

theorem sound_of_walkAll (r : Rules) :
    ∀ (ns : List Node) (s s' : FlowState), walkAll r ns s = .ok () s' → ∀ n ∈ ns, n.Sound
  | [], _, _, _ => List.forall_mem_nil _
  | n :: ns, s, s', h => by
    rw [walkAll] at h
    obtain ⟨_, s₁, hhead, htail⟩ := bind_inv h
    exact List.forall_mem_cons.mpr
      ⟨sound_of_walk r n s s₁ hhead, sound_of_walkAll r ns s₁ s' htail⟩

theorem sound_of_walkClause (r : Rules) :
    ∀ (c : Clause) (s s' : FlowState), walkClause r c s = .ok () s' → (Node.clause c).Sound
  | .mk pattern guard body span, s, s', h => by
    rw [walkClause] at h
    obtain ⟨_, s₁, hpattern, h⟩ := bind_inv h
    obtain ⟨_, s₂, hguard, hbody⟩ := bind_inv h
    exact (Node.sound_clause pattern guard body span).mpr
      ⟨sound_of_walk r pattern s s₁ hpattern, sound_of_walk r guard s₁ s₂ hguard,
        sound_of_walk r body s₂ s' hbody⟩

theorem sound_of_walkClauses (r : Rules) :
    ∀ (cs : List Clause) (s s' : FlowState), walkClauses r cs s = .ok () s' →
      ∀ c ∈ cs, (Node.clause c).Sound
  | [], _, _, _ => List.forall_mem_nil _
  | c :: cs, s, s', h => by
    rw [walkClauses] at h
    obtain ⟨_, s₁, hhead, htail⟩ := bind_inv h
    exact List.forall_mem_cons.mpr
      ⟨sound_of_walkClause r c s s₁ hhead, sound_of_walkClauses r cs s₁ s' htail⟩

end

/-- A run returns on sound trees only. -/
theorem sound_of_run {r : Rules} {tree : Node} {s s' : FlowState} {findings : List Finding}
    (h : run r tree s = .ok findings s') : tree.Sound := by
  unfold run at h
  obtain ⟨_, s₁, -, h⟩ := bind_inv h
  obtain ⟨_, s₂, -, h⟩ := bind_inv h
  obtain ⟨_, s₃, hwalk, -⟩ := bind_inv h
  exact sound_of_walk r tree s₂ s₃ hwalk

/-- A run over the tree returns these findings, whatever the state was before. -/
def Finds (r : Rules) (tree : Node) (found : List Finding) : Prop :=
  ∀ s, ∃ s', run r tree s = .ok found s'

theorem finds_of_sound (r : Rules) {tree : Node} (h : tree.Sound) :
    Finds r tree (tree.allFindings r) :=
  run_ok r tree h

theorem finds_iff {r : Rules} {tree : Node} {found : List Finding} :
    Finds r tree found ↔ tree.Sound ∧ found = tree.allFindings r := by
  constructor
  · intro h
    obtain ⟨s, hrun⟩ := h {}
    have hsound := sound_of_run hrun
    obtain ⟨s', hrun'⟩ := run_ok r tree hsound {}
    rw [hrun] at hrun'
    exact ⟨hsound, (EStateM.Result.ok.inj hrun').1⟩
  · rintro ⟨hsound, rfl⟩
    exact finds_of_sound r hsound

end Flow

/-- The walk with its stack finds what the traces of the tree say, for every classification, every
subtype relation and every overriding, if each node that is reached is a node of the language and
each raise that is reached throws something of a known type. -/
theorem run_follows_traces (r : Rules) (tree : Node)
    (hnodes : ∀ typeName, ¬ tree.Reached (.foreign typeName))
    (htyped : ∀ value type span, tree.Reached (.raise value type span) →
      (value.thrownType? type).isSome)
    (s : FlowState) :
    ∃ s', Flow.run r tree s = .ok (tree.allFindings r) s' :=
  Flow.run_ok r tree ((Node.sound_iff_reached tree).mpr ⟨hnodes, htyped⟩) s

/-- The standard policy over the builtin types, where nothing is overridden. -/
def standardRules : Rules := .ofPolicy .builtin .builtin .standard fun _ => []

/-- A raise of a type at a line. -/
def raiseAt (line : Int) (name : String) : Node :=
  .raise .absent (some ⟨name⟩) { line := some line }

/-- A clause without a guard that catches a type and does nothing. -/
def ignoring (name : String) : Clause :=
  .mk (.plain (.typePattern ⟨name⟩ none) [] {}) .absent (.plain .block [] {}) {}

/-- A `tryCatch` around nothing. -/
def emptyTry (clauses : List Clause) : Node := .tryCatch (.plain .block [] {}) clauses .absent {}

theorem sound_raiseAt (line : Int) (name : String) : (raiseAt line name).Sound :=
  (Node.sound_raise _ _ _).mpr ⟨rfl, Node.sound_absent⟩

theorem sound_ignoring (name : String) : (Node.clause (ignoring name)).Sound := by
  simp [ignoring, Node.sound_clause, Node.sound_plain, Node.sound_absent]

theorem sound_emptyTry (name : String) : (emptyTry [ignoring name]).Sound := by
  simp [emptyTry, sound_ignoring, Node.sound_tryCatch, Node.sound_plain, Node.sound_absent]

/-- A marker that declares a type. -/
def throwsMarker (name : String) : Marker := ⟨⟨"throws", [.resolved ⟨name⟩], []⟩, {}⟩

def streamRead : Symbol := ⟨"Stream.read", .method, [throwsMarker "IOException"]⟩

/-- A method with a declaration of its own that overrides `streamRead` below. -/
def socketRead : Symbol := ⟨"Socket.read", .method, [throwsMarker "InterruptedException"]⟩

def socketRules : Rules :=
  .ofPolicy .builtin .builtin .standard fun m => if m = socketRead then [streamRead] else []

/-- A definition that is exempt, around a raise. -/
def exemptRaise (line : Int) : Node :=
  .funcDef ⟨"g", .function, [⟨⟨"unchecked", [], []⟩, {}⟩]⟩ [] [raiseAt line "IOException"] {}

theorem sound_exemptRaise (line : Int) : (exemptRaise line).Sound := by
  simp [exemptRaise, Node.sound_funcDef, sound_raiseAt]

/-- A function with two raises around a catch point and a call of a method that overrides another
one, that method with a raise that its overridden declaration covers and one that it does not, and
an exempt definition. -/
def twoRaises : Node :=
  .unit [
    .funcDef ⟨"f", .function, []⟩ []
      [.tryCatch (raiseAt 1 "IOException") [ignoring "IOException"] (raiseAt 2 "IOException") {},
        raiseAt 3 "IllegalStateException",
        .invoke .call socketRead [] none { line := some 4 }] {},
    .funcDef socketRead [] [raiseAt 6 "FileNotFoundException", raiseAt 7 "Exception"]
      { line := some 5 },
    exemptRaise 8] {}

theorem run_follows_traces_of_two_raises :
    ∃ s', Flow.run socketRules twoRaises {} =
      .ok [.unhandled { line := some 2 } ⟨"IOException"⟩,
        .unhandled { line := some 4 } ⟨"InterruptedException"⟩,
        .unhandled { line := some 4 } ⟨"IOException"⟩,
        .cannotOverride { line := some 5 } "read" ⟨"InterruptedException"⟩,
        .unhandled { line := some 7 } ⟨"Exception"⟩] s' := by
  have hsound : twoRaises.Sound := by
    simp [twoRaises, Node.sound_unit, Node.sound_funcDef, Node.sound_tryCatch, Node.sound_invoke,
      sound_raiseAt, sound_ignoring, sound_exemptRaise]
  obtain ⟨hnodes, htyped⟩ := (Node.sound_iff_reached _).mp hsound
  have hfindings : twoRaises.allFindings socketRules =
      [.unhandled { line := some 2 } ⟨"IOException"⟩,
        .unhandled { line := some 4 } ⟨"InterruptedException"⟩,
        .unhandled { line := some 4 } ⟨"IOException"⟩,
        .cannotOverride { line := some 5 } "read" ⟨"InterruptedException"⟩,
        .unhandled { line := some 7 } ⟨"Exception"⟩] := by decide +kernel
  rw [← hfindings]
  exact run_follows_traces socketRules twoRaises hnodes htyped {}

end CheckedExceptions
