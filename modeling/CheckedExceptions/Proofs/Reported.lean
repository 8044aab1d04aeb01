import CheckedExceptions.Proofs.Layers

/-!
No throw is missed. A throw at a place is reported unless its type is unchecked, is declared by the
propagation point around the place, or is caught by a catch point of the same frame that the walk
comes to after it: one that protects the place, or one that merely stands behind it.
-/
namespace CheckedExceptions

open Event

section Places

variable (r : Rules)

namespace Layer

/-- A layer that the walk goes into keeps what is found inside it. -/
theorem mem_findings_fill {f : Finding} {n : Node} (l : Layer) (hopen : l.isOpen = true)
    (h : f ∈ n.findings r) : f ∈ (l.fill n).findings r := by
  obtain ⟨before, after, haround⟩ := l.findings_around r hopen
  rw [haround n]
  exact List.mem_append_right _ (List.mem_append_left _ h)

/-- A propagation point that the walk goes into reports what escapes its content. -/
theorem mem_findings_of_escaping {x : Candidate} {n : Node} {l : Layer} (hpoint : l.isPoint = true)
    (hopen : l.isOpen = true)
    (h : x ∈ escaping r.classification (l.declared r) (l.content r.overridden n)) :
    .unhandled x.span x.type ∈ (l.fill n).findings r := by
  have hleaving : Finding.unhandled x.span x.type ∈ l.leaving r n := by
    rw [leaving, if_pos hpoint]
    exact List.mem_map_of_mem h
  obtain ⟨before, after, haround⟩ := l.findings_around r hopen
  rw [haround n]
  exact List.mem_append_right _ (List.mem_append_right _ (List.mem_append_right _ hleaving))

theorem mem_findings_fillAll {f : Finding} (layers : List Layer)
    (hopen : ∀ l ∈ layers, l.isOpen = true) {n : Node} (h : f ∈ n.findings r) :
    f ∈ (fillAll layers n).findings r := by
  induction layers generalizing n with
  | nil => exact h
  | cons l layers ih =>
    rw [List.forall_mem_cons] at hopen
    exact ih hopen.2 (l.mem_findings_fill r hopen.1 h)

/-- A throw in the trace of what fills a place is reported if nothing after it, in the same frame,
takes it away. The layers are peeled off up to the propagation point that reports it. -/
theorem mem_allFindings_fillAll {x : Candidate}
    (hchecked : r.classification.isUnchecked x.type = false) (layers : List Layer)
    (hopen : ∀ l ∈ layers, l.isOpen = true)
    (huncaught : ∀ l ∈ sharing layers,
      r.classification.handles (Clause.types l.protecting) x.type = false ∧
        r.classification.handles (caughtIn (Node.traceAll r.overridden l.behind)) x.type = false)
    (hdeclared : r.classification.handles (declaredAround r layers) x.type = false)
    (n : Node) (pre post : List Event) (htrace : n.trace r.overridden = pre ++ .throws x :: post)
    (hpost : r.classification.handles (caughtIn post) x.type = false) :
    .unhandled x.span x.type ∈ (fillAll layers n).allFindings r := by
  -- Outwards over the layers: the throw stays in the trace, and what comes after it gets longer.
  induction layers generalizing n pre post with
  | nil =>
    rw [fillAll, Node.allFindings, htrace]
    exact List.mem_append_right _ (List.mem_map_of_mem (mem_escaping hchecked rfl pre post hpost))
  | cons l layers ih =>
    rw [List.forall_mem_cons] at hopen
    obtain ⟨pre', post', hcaught, haround⟩ := l.content_split r.overridden n
    have hsplit : l.content r.overridden n = (pre' ++ pre) ++ .throws x :: (post ++ post') := by
      rw [haround n (.refl n), htrace]
      simp
    have hafter : r.classification.handles (caughtIn (post ++ post')) x.type = false := by
      obtain ⟨hprotecting, hbehind⟩ := huncaught l (mem_sharing_cons l layers)
      rw [caughtIn_append, hcaught, handles_append, handles_append, hpost, hprotecting, hbehind]
      rfl
    cases hpoint : l.isPoint with
    | true =>
      simp only [declaredAround, hpoint, ite_true] at hdeclared
      have hescape := mem_escaping hchecked hdeclared (pre' ++ pre) (post ++ post') hafter
      rw [← hsplit] at hescape
      have hfound := mem_findings_of_escaping r hpoint hopen.1 hescape
      exact List.mem_append_left _ (mem_findings_fillAll r layers hopen.2 hfound)
    | false =>
      simp only [sharing, hpoint, Bool.false_eq_true, ite_false, List.forall_mem_cons] at huncaught
      simp only [declaredAround, hpoint, Bool.false_eq_true, ite_false] at hdeclared
      exact ih hopen.2 huncaught.2 hdeclared (l.fill n) (pre' ++ pre) (post ++ post')
        ((trace_fill r.overridden hpoint n).trans hsplit) hafter

end Layer

/-- A throw site of `x`: a raise of its type, or an invocation whose own and overridden declarations
can be read and name its type. -/
def Node.Throws (r : Rules) (x : Candidate) : Node → Prop
  | .raise value type span => value.thrownType? type = some x.type ∧ span = x.span
  | .invoke _ symbol _ _ span =>
    ∃ own inherited, Declared.read [symbol] = .ok own ∧
      Declared.read (r.overridden symbol) = .ok inherited ∧ x.type ∈ own ++ inherited ∧
      span = x.span
  | _ => False

/-- The trace of a throw site ends with its throws. -/
theorem Node.Throws.trace_eq {x : Candidate} {site : Node} (h : site.Throws r x) :
    ∃ pre post, site.trace r.overridden = pre ++ .throws x :: post ∧ caughtIn post = [] := by
  cases site with
  | raise value type span =>
    obtain ⟨htype, rfl⟩ := h
    refine ⟨value.trace r.overridden, [], ?_, rfl⟩
    simp [Node.trace, htype]
  | invoke how symbol operands type span =>
    obtain ⟨own, inherited, hown, hinherited, hmem, rfl⟩ := h
    have hthrown : Declared.thrownBy r.overridden symbol x.span = own ++ inherited := by
      simp only [Declared.thrownBy, Declared.declarationOf, Declared.declaration_eq_ok hown,
        Declared.declaration_eq_ok hinherited]
    obtain ⟨front, back, hsplit⟩ := List.append_of_mem hmem
    refine ⟨Node.traceAll r.overridden operands ++ front.map fun t => .throws ⟨x.span, t⟩,
      back.map fun t => .throws ⟨x.span, t⟩, ?_, caughtIn_throws _ _⟩
    simp [Node.trace, hthrown, hsplit]
  | _ => exact h.elim

theorem Node.Throws.ne_clause {x : Candidate} {site : Node} (h : site.Throws r x) (c : Clause) :
    site ≠ .clause c := by
  rintro rfl
  exact h

end Places

/-- No checked exception is missed. Every throw site that is reached has a place; and the throw is
reported if the propagation point around that place does not declare its type, no catch clause that
protects the place catches it, and neither does any catch point that stands behind the place in the
same propagation point. -/
theorem throw_reported (r : Rules) (tree site : Node) (x : Candidate) (hsound : tree.Sound)
    (hreached : tree.Reached site) (hthrows : site.Throws r x)
    (hchecked : r.classification.isUnchecked x.type = false) (s : FlowState) :
    (∃ layers, tree.HoldsAt layers site) ∧
      ∀ layers, tree.HoldsAt layers site →
        (∀ l ∈ Layer.sharing layers,
          r.classification.handles (Clause.types l.protecting) x.type = false) →
        (∀ l ∈ Layer.sharing layers, ∀ n ∈ l.behind,
          n.CatchesNone r.classification x.type) →
        r.classification.handles (Layer.declaredAround r layers) x.type = false →
        ∃ findings s', Flow.run r tree s = .ok findings s' ∧
          .unhandled x.span x.type ∈ findings := by
  refine ⟨hreached.exists_place (hthrows.ne_clause r), ?_⟩
  rintro layers ⟨hopen, rfl⟩ hprotected hbehind hdeclared
  obtain ⟨s', hrun⟩ := Flow.run_ok r _ hsound s
  obtain ⟨pre, post, htrace, hpost⟩ := hthrows.trace_eq r
  refine ⟨_, s', hrun, ?_⟩
  refine Layer.mem_allFindings_fillAll r hchecked layers hopen ?_ hdeclared site pre post htrace ?_
  · intro l hl
    exact ⟨hprotected l hl, Node.traceAll_catchesNone r x.type l.behind (hbehind l hl)⟩
  · rw [hpost]
    rfl

theorem raiseAt_throws (r : Rules) (line : Int) (name : String) :
    (raiseAt line name).Throws r ⟨{ line := some line }, ⟨name⟩⟩ := ⟨rfl, rfl⟩

theorem catchesNone_leaf (c : Classification) (t : ExceptionType) (form : Form) :
    (Node.plain form [] {}).CatchesNone c t :=
  Node.catchesNone_of_inside (by simp) (by simp [Node.children])

theorem catchesNone_ignoring (c : Classification) (t : ExceptionType) (name : String) :
    (Node.clause (ignoring name)).CatchesNone c t := by
  refine Node.catchesNone_of_inside (by simp) ?_
  simp [ignoring, Node.children, Node.present, Node.isAbsent, catchesNone_leaf]

theorem catchesNone_emptyTry {c : Classification} {t : ExceptionType} (name : String)
    (h : c.handles [⟨name⟩] t = false) : (emptyTry [ignoring name]).CatchesNone c t := by
  refine Node.catchesNone_tryCatch h ?_
  simp [Node.children, Node.present, Node.isAbsent, catchesNone_leaf, catchesNone_ignoring]

/-- Three catch points around and behind a raise, none of which catches it. -/
def throwAmongCatches : Node :=
  .funcDef ⟨"f", .function, []⟩ []
    [.tryCatch (raiseAt 2 "IOException") [ignoring "IllegalStateException"]
        (emptyTry [ignoring "Error"]) {},
      emptyTry [ignoring "InterruptedException"]] {}

theorem throw_reported_before_unrelated_catch :
    ∃ findings s', Flow.run standardRules throwAmongCatches {} = .ok findings s' ∧
      .unhandled { line := some 2 } ⟨"IOException"⟩ ∈ findings := by
  have hsound : throwAmongCatches.Sound := by
    simp [throwAmongCatches, sound_raiseAt, sound_ignoring, sound_emptyTry, Node.sound_funcDef,
      Node.sound_tryCatch]
  have hreached : throwAmongCatches.Reached (raiseAt 2 "IOException") :=
    .head List.mem_cons_self (.head List.mem_cons_self .refl)
  have hthrows := raiseAt_throws standardRules 2 "IOException"
  refine (throw_reported standardRules _ _ _ hsound hreached hthrows (by decide) {}).2
    [.protectedBody [ignoring "IllegalStateException"] (emptyTry [ignoring "Error"]) {},
      .funcDef ⟨"f", .function, []⟩ [] [] [emptyTry [ignoring "InterruptedException"]] {}]
    ⟨by decide, rfl⟩ (by decide) ?_ (by decide)
  have herror := catchesNone_emptyTry (c := standardRules.classification)
    (t := ⟨"IOException"⟩) "Error" (by decide)
  have hinterrupted := catchesNone_emptyTry (c := standardRules.classification)
    (t := ⟨"IOException"⟩) "InterruptedException" (by decide)
  simp [Layer.sharing, Layer.isPoint, Layer.behind, catchesNone_ignoring, herror, hinterrupted]

/-- A raise with a catch point behind it that catches its type. -/
def throwBeforeCatch : Node :=
  .funcDef ⟨"f", .function, []⟩ [] [raiseAt 1 "IOException", emptyTry [ignoring "IOException"]] {}

/-- A protected place is not the only one that a catch point takes throws from: one behind the throw
takes it away as well. -/
theorem catch_behind_hides_throw :
    ¬ ∀ (r : Rules) (tree site : Node) (x : Candidate), tree.Sound → tree.Reached site →
      site.Throws r x → r.classification.isUnchecked x.type = false →
      ∀ (s : FlowState) (layers : List Layer), tree.HoldsAt layers site →
        (∀ l ∈ Layer.sharing layers,
          r.classification.handles (Clause.types l.protecting) x.type = false) →
        r.classification.handles (Layer.declaredAround r layers) x.type = false →
        ∃ findings s', Flow.run r tree s = .ok findings s' ∧
          .unhandled x.span x.type ∈ findings := by
  intro h
  have hsound : throwBeforeCatch.Sound := by
    simp [throwBeforeCatch, sound_raiseAt, sound_emptyTry, Node.sound_funcDef]
  have hreached : throwBeforeCatch.Reached (raiseAt 1 "IOException") :=
    .head List.mem_cons_self .refl
  have hthrows := raiseAt_throws standardRules 1 "IOException"
  obtain ⟨findings, s', hrun, hmem⟩ := h _ _ _ _ hsound hreached hthrows (by decide) {}
    [.funcDef ⟨"f", .function, []⟩ [] [] [emptyTry [ignoring "IOException"]] {}]
    ⟨by decide, rfl⟩ (by decide) (by decide)
  have hnone : ∃ s'', Flow.run standardRules throwBeforeCatch {} = .ok [] s'' := ⟨_, rfl⟩
  obtain ⟨s'', hrun'⟩ := hnone
  rw [hrun'] at hrun
  obtain ⟨rfl, -⟩ := EStateM.Result.ok.inj hrun
  simp at hmem

end CheckedExceptions
