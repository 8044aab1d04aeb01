import CheckedExceptions.Proofs.Walk

/-!
How the findings of a tree depend on the policy. A policy that exempts more types drops candidates
as soon as they are met, long before a catch point or a declaration could have removed them. This
makes no difference to the other candidates, so its findings are those of the narrower policy
without the throws of the types it exempts in addition. The three policies exempt more and more
types, whatever is registered below the builtin types.
-/
namespace CheckedExceptions

/-- The finding is not about a throw of an unchecked type. -/
def Finding.staysUnder (isUnchecked : ExceptionType → Bool) : Finding → Bool
  | unhandled _ type => !isUnchecked type
  | _ => true

/-- Every unchecked type of the rules is among these. -/
def Rules.ExemptWithin (r : Rules) (isUnchecked : ExceptionType → Bool) : Prop :=
  ∀ t, r.classification.isUnchecked t = true → isUnchecked t = true

/-- The same rules with other unchecked types. -/
def Rules.withUnchecked (r : Rules) (isUnchecked : ExceptionType → Bool) : Rules :=
  ⟨⟨isUnchecked, r.classification.isSubtype⟩, r.overridden⟩

section Widening

variable {r : Rules} {isUnchecked : ExceptionType → Bool}

/-- What a trace lets escape under more unchecked types. What is caught or declared is looked up in
the subtype relation alone. -/
theorem Event.escaping_withUnchecked (hwider : r.ExemptWithin isUnchecked)
    (declared : List ExceptionType) (trace : List Event) :
    escaping (r.withUnchecked isUnchecked).classification declared trace =
      (escaping r.classification declared trace).filter fun x => !isUnchecked x.type := by
  induction trace with
  | nil => rfl
  | cons event later ih =>
    cases event with
    | catches types => exact ih
    | throws x =>
      have hhandles : ∀ types, (r.withUnchecked isUnchecked).classification.handles types x.type =
          r.classification.handles types x.type := fun _ => rfl
      have hunchecked : (r.withUnchecked isUnchecked).classification.isUnchecked x.type =
          isUnchecked x.type := rfl
      simp only [escaping, hhandles, hunchecked, ih]
      -- What was exempt before is exempt still; of the rest, only what is newly exempt is dropped.
      cases hnarrow : r.classification.isUnchecked x.type with
      | true => simp [hwider _ hnarrow]
      | false =>
        cases hwide : isUnchecked x.type <;>
          cases hdeclared : r.classification.handles declared x.type <;>
          cases hcaught : r.classification.handles (caughtIn later) x.type <;> simp [hwide]

theorem Event.unhandled_withUnchecked (hwider : r.ExemptWithin isUnchecked)
    (declared : List ExceptionType) (trace : List Event) :
    unhandled (r.withUnchecked isUnchecked).classification declared trace =
      (unhandled r.classification declared trace).filter (Finding.staysUnder isUnchecked) := by
  unfold unhandled
  rw [escaping_withUnchecked hwider, List.filter_map]
  rfl

namespace Declared

theorem stays_of_declaration_error {symbols : List Symbol} {span : Span} {owner : String}
    {finding : Finding} (h : declaration symbols span owner = .error finding) :
    finding.staysUnder isUnchecked = true := by
  unfold declaration at h
  cases hread : read symbols with
  | ok types => rw [hread] at h; cases h
  | error m => rw [hread] at h; cases h; rfl

theorem stays_of_declarationOf_error {overridden : Symbol → List Symbol} {symbol : Symbol}
    {span : Span} {owner : String} {finding : Finding}
    (h : declarationOf overridden symbol span owner = .error finding) :
    finding.staysUnder isUnchecked = true := by
  unfold declarationOf at h
  cases hown : declaration [symbol] span owner with
  | error f =>
    rw [hown] at h
    cases h
    exact stays_of_declaration_error hown
  | ok own =>
    simp only [hown] at h
    cases hover : declaration (overridden symbol) span owner with
    | error f =>
      rw [hover] at h
      cases h
      exact stays_of_declaration_error hover
    | ok inherited => rw [hover] at h; cases h

theorem filter_faults {α : Type} {reading : Except Finding α}
    (h : ∀ finding, reading = .error finding → finding.staysUnder isUnchecked = true) :
    (faults reading).filter (Finding.staysUnder isUnchecked) = faults reading := by
  cases reading with
  | ok a => rfl
  | error finding => simp [faults, h finding rfl]

theorem filter_constructorFindings (symbol ctor : Symbol) (span : Span) :
    (constructorFindings symbol ctor span).filter (Finding.staysUnder isUnchecked) =
      constructorFindings symbol ctor span :=
  filter_faults fun _ => stays_of_declaration_error

theorem filter_invocationFindings (overridden : Symbol → List Symbol) (symbol : Symbol)
    (span : Span) :
    (invocationFindings overridden symbol span).filter (Finding.staysUnder isUnchecked) =
      invocationFindings overridden symbol span :=
  filter_faults fun _ => stays_of_declarationOf_error

theorem filter_overrideFindings (isSubtype : ExceptionType → ExceptionType → Bool) (span : Span)
    (method : String) (own inherited : List ExceptionType) (overridesAny : Bool) :
    (overrideFindings isSubtype span method own inherited overridesAny).filter
        (Finding.staysUnder isUnchecked) =
      overrideFindings isSubtype span method own inherited overridesAny := by
  rw [List.filter_eq_self]
  intro finding hmem
  unfold overrideFindings at hmem
  split at hmem
  · obtain ⟨t, -, rfl⟩ := List.mem_map.mp hmem
    rfl
  · cases hmem

theorem filter_definitionFindings (overridden : Symbol → List Symbol)
    (isSubtype : ExceptionType → ExceptionType → Bool) (symbol : Symbol) (span : Span) :
    (definitionFindings overridden isSubtype symbol span).filter (Finding.staysUnder isUnchecked) =
      definitionFindings overridden isSubtype symbol span := by
  unfold definitionFindings
  cases hdecl : declarationOf overridden symbol span symbol.name with
  | error finding => simp [stays_of_declarationOf_error hdecl]
  | ok types => exact filter_overrideFindings isSubtype span symbol.name types.1 types.2 _

end Declared

open Event Declared

mutual

theorem Node.findings_withUnchecked (hwider : r.ExemptWithin isUnchecked) :
    ∀ n : Node, n.findings (r.withUnchecked isUnchecked) =
      (n.findings r).filter (Finding.staysUnder isUnchecked)
  | .absent | .foreign _ => rfl
  | .unit body _ => by
    simp only [Node.findings, List.filter_append, Node.findingsAll_withUnchecked hwider body,
      ← unhandled_withUnchecked hwider]
    rfl
  | .classDef symbol ctor body span => by
    simp only [Node.findings]
    split
    · rfl
    · split
      · rw [filter_constructorFindings]
      · simp only [List.filter_append, filter_constructorFindings,
          Node.findingsAll_withUnchecked hwider body, ← unhandled_withUnchecked hwider]
        rfl
  | .funcDef symbol _ body span => by
    simp only [Node.findings]
    split
    · rfl
    · simp only [List.filter_append, filter_definitionFindings,
        Node.findingsAll_withUnchecked hwider body, ← unhandled_withUnchecked hwider]
      rfl
  | .tryCatch body clauses finalizer _ => by
    simp only [Node.findings, List.filter_append, Node.findings_withUnchecked hwider body,
      Clause.findingsAll_withUnchecked hwider clauses, Node.findings_withUnchecked hwider finalizer]
  | .clause c => by
    simp only [Node.findings, Clause.findings_withUnchecked hwider c]
  | .raise value _ _ => by
    simp only [Node.findings, Node.findings_withUnchecked hwider value]
  | .invoke _ symbol operands _ span => by
    simp only [Node.findings, List.filter_append, filter_invocationFindings,
      Node.findingsAll_withUnchecked hwider operands]
    rfl
  | .plain _ parts _ => by
    simp only [Node.findings, Node.findingsAll_withUnchecked hwider parts]

theorem Node.findingsAll_withUnchecked (hwider : r.ExemptWithin isUnchecked) :
    ∀ ns : List Node, Node.findingsAll (r.withUnchecked isUnchecked) ns =
      (Node.findingsAll r ns).filter (Finding.staysUnder isUnchecked)
  | [] => rfl
  | n :: ns => by
    simp only [Node.findingsAll, List.filter_append, Node.findings_withUnchecked hwider n,
      Node.findingsAll_withUnchecked hwider ns]

theorem Clause.findings_withUnchecked (hwider : r.ExemptWithin isUnchecked) :
    ∀ c : Clause, c.findings (r.withUnchecked isUnchecked) =
      (c.findings r).filter (Finding.staysUnder isUnchecked)
  | .mk pattern guard body _ => by
    simp only [Clause.findings, List.filter_append, Node.findings_withUnchecked hwider pattern,
      Node.findings_withUnchecked hwider guard, Node.findings_withUnchecked hwider body]

theorem Clause.findingsAll_withUnchecked (hwider : r.ExemptWithin isUnchecked) :
    ∀ cs : List Clause, Clause.findingsAll (r.withUnchecked isUnchecked) cs =
      (Clause.findingsAll r cs).filter (Finding.staysUnder isUnchecked)
  | [] => rfl
  | c :: cs => by
    simp only [Clause.findingsAll, List.filter_append, Clause.findings_withUnchecked hwider c,
      Clause.findingsAll_withUnchecked hwider cs]

end

/-- More unchecked types only delete throws of these types from the findings. -/
theorem Node.allFindings_withUnchecked (hwider : r.ExemptWithin isUnchecked) (tree : Node) :
    tree.allFindings (r.withUnchecked isUnchecked) =
      (tree.allFindings r).filter (Finding.staysUnder isUnchecked) := by
  unfold Node.allFindings
  rw [List.filter_append, Node.findings_withUnchecked hwider tree,
    ← unhandled_withUnchecked hwider]
  rfl

end Widening

namespace Policy

/-- Whatever the strict policy exempts, the standard one does. -/
theorem isUnchecked_standard_of_strict (h : Hierarchy) (roots : Roots) {t : ExceptionType}
    (ht : strict.isUnchecked h roots t = true) : standard.isUnchecked h roots t = true := by
  simp only [isUnchecked, exempt, List.any_cons, List.any_nil, Bool.or_false] at ht ⊢
  rw [ht, Bool.or_true]

/-- The failures that the fatal policy exempts are errors, in every table that has grown from the
builtin one. -/
theorem isUnchecked_strict_of_fatal {h : Hierarchy} (hordered : Hierarchy.Ordered h.entries)
    (hsuffix : Hierarchy.builtin.entries <:+ h.entries) {t : ExceptionType}
    (ht : fatal.isUnchecked h .builtin t = true) : strict.isUnchecked h .builtin t = true := by
  have herror : ∀ root ∈ Roots.builtin.fatal, h.isSubtype root Roots.builtin.error = true := by
    intro root hroot
    have hbuiltin : ∀ u ∈ Roots.builtin.fatal, Hierarchy.builtin.contains u.name = true ∧
        Hierarchy.builtin.isSubtype u Roots.builtin.error = true := by decide
    obtain ⟨hnamed, hsub⟩ := hbuiltin root hroot
    rwa [Hierarchy.isSubtype_of_suffix hordered hsuffix (Hierarchy.contains_iff.mp hnamed)]
  obtain ⟨root, hroot, hsub⟩ := List.any_eq_true.mp ht
  exact List.any_eq_true.mpr ⟨Roots.builtin.error, List.mem_singleton_self _,
    Hierarchy.isSubtype_trans hordered hsub (herror root hroot)⟩

end Policy

theorem check_ok {h : Hierarchy} {roots : Roots} (hroots : h.roots = .ok roots) (p : Policy)
    (overridden : Symbol → List Symbol) {tree : Node} (hsound : tree.Sound) :
    ∃ events, check h p overridden tree =
      .ok ⟨tree.allFindings (.ofPolicy h roots p overridden), events⟩ := by
  obtain ⟨s', hrun⟩ := Flow.run_ok (.ofPolicy h roots p overridden) tree hsound {}
  exact ⟨s'.events, by simp only [check, hroots, hrun]⟩

theorem sound_of_check {h : Hierarchy} {p : Policy} {overridden : Symbol → List Symbol}
    {tree : Node} {verdict : Verdict} (hcheck : check h p overridden tree = .ok verdict) :
    tree.Sound := by
  unfold check at hcheck
  cases hroots : h.roots with
  | error e => rw [hroots] at hcheck; cases hcheck
  | ok roots =>
    simp only [hroots] at hcheck
    cases hrun : Flow.run (.ofPolicy h roots p overridden) tree {} with
    | error e s => rw [hrun] at hcheck; cases hcheck
    | ok findings s => exact Flow.sound_of_run hrun

/-- A policy that exempts more finds the same, apart from throws of what it exempts. -/
theorem allFindings_ofPolicy {h : Hierarchy} {roots : Roots} {p q : Policy}
    (hwider : ∀ t, p.isUnchecked h roots t = true → q.isUnchecked h roots t = true)
    (overridden : Symbol → List Symbol) (tree : Node) :
    tree.allFindings (.ofPolicy h roots q overridden) =
      (tree.allFindings (.ofPolicy h roots p overridden)).filter
        (Finding.staysUnder (q.isUnchecked h roots)) :=
  Node.allFindings_withUnchecked (r := .ofPolicy h roots p overridden) hwider tree

theorem Finding.unhandledTypes_filter_subset (findings : List Finding) (q : Finding → Bool) :
    unhandledTypes (findings.filter q) ⊆ unhandledTypes findings := by
  intro t ht
  unfold unhandledTypes at ht ⊢
  rw [List.mem_eraseDups, List.mem_filterMap] at ht ⊢
  obtain ⟨finding, hmem, htype⟩ := ht
  exact ⟨finding, (List.mem_filter.mp hmem).1, htype⟩

/-- Over every table that has grown from the builtin one, a tree that can be checked under one
policy can be checked under all three. The strict findings are the fatal ones without the throws of
types that the strict policy exempts, and the standard findings are the strict ones without the
throws of types that the standard policy exempts. -/
theorem policies_factor (types : List (String × Option String)) {h : Hierarchy}
    (hregister : Hierarchy.builtin.registerAll types = .ok h)
    (overridden : Symbol → List Symbol) (tree : Node) {p : Policy} {verdict : Verdict}
    (hcheck : check h p overridden tree = .ok verdict) :
    ∃ (roots : Roots) (fatal strict standard : Verdict), h.roots = .ok roots ∧
      check h .fatal overridden tree = .ok fatal ∧
      check h .strict overridden tree = .ok strict ∧
      check h .standard overridden tree = .ok standard ∧
      strict.findings =
        fatal.findings.filter (Finding.staysUnder (Policy.strict.isUnchecked h roots)) ∧
      standard.findings =
        strict.findings.filter (Finding.staysUnder (Policy.standard.isUnchecked h roots)) ∧
      Finding.unhandledTypes strict.findings ⊆ Finding.unhandledTypes fatal.findings ∧
      Finding.unhandledTypes standard.findings ⊆ Finding.unhandledTypes strict.findings := by
  obtain ⟨hordered, hsuffix⟩ := Hierarchy.grown_registerAll Hierarchy.ordered_builtin hregister
  have hroots := Hierarchy.roots_eq_builtin hsuffix
  have hsound := sound_of_check hcheck
  obtain ⟨fatalEvents, hfatal⟩ := check_ok hroots .fatal overridden hsound
  obtain ⟨strictEvents, hstrict⟩ := check_ok hroots .strict overridden hsound
  obtain ⟨standardEvents, hstandard⟩ := check_ok hroots .standard overridden hsound
  have hfactor := allFindings_ofPolicy
    (fun _ => Policy.isUnchecked_strict_of_fatal hordered hsuffix) overridden tree
  have hfactor' := allFindings_ofPolicy
    (fun _ => Policy.isUnchecked_standard_of_strict h .builtin) overridden tree
  refine ⟨.builtin, _, _, _, hroots, hfatal, hstrict, hstandard, hfactor, hfactor', ?_, ?_⟩
  · simp only [hfactor]
    exact Finding.unhandledTypes_filter_subset _ _
  · simp only [hfactor']
    exact Finding.unhandledTypes_filter_subset _ _

/-- With a runtime exception and an error of its own, each policy hides one throw more. -/
theorem policies_factor_for_registered_types :
    ∃ h fatal strict standard,
      Hierarchy.builtin.registerAll
        [("Retry", some "RuntimeException"), ("Corrupt", some "Error")] = .ok h ∧
      check h .fatal (fun _ => []) (.plain .block
        [raiseAt 1 "Corrupt", raiseAt 2 "IOException", raiseAt 3 "Retry"] {}) = .ok fatal ∧
      check h .strict (fun _ => []) (.plain .block
        [raiseAt 1 "Corrupt", raiseAt 2 "IOException", raiseAt 3 "Retry"] {}) = .ok strict ∧
      check h .standard (fun _ => []) (.plain .block
        [raiseAt 1 "Corrupt", raiseAt 2 "IOException", raiseAt 3 "Retry"] {}) = .ok standard ∧
      fatal.findings.filterMap Finding.unhandledType? = [⟨"Corrupt"⟩, ⟨"IOException"⟩, ⟨"Retry"⟩] ∧
      strict.findings.filterMap Finding.unhandledType? = [⟨"IOException"⟩, ⟨"Retry"⟩] ∧
      standard.findings.filterMap Finding.unhandledType? = [⟨"IOException"⟩] := by
  obtain ⟨roots, fatal, strict, standard, hroots, hfatal, hstrict, hstandard, hfactor, hfactor',
      -, -⟩ := policies_factor
    [("Retry", some "RuntimeException"), ("Corrupt", some "Error")] rfl (fun _ => [])
    (.plain .block [raiseAt 1 "Corrupt", raiseAt 2 "IOException", raiseAt 3 "Retry"] {})
    (p := .fatal) rfl
  refine ⟨_, fatal, strict, standard, rfl, hfatal, hstrict, hstandard, ?_⟩
  cases hroots
  cases hfatal
  rw [hfactor', hfactor]
  exact ⟨rfl, rfl, rfl⟩

end CheckedExceptions
