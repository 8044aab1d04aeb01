import CheckedExceptions.Proofs.Layers
import Mathlib.Data.List.Forall2

/-!
A catch clause of which nobody knows what it catches. Such a clause takes nothing out of a frame, so
a tree with a guard put on one of its clauses, or an extractor put in place of a type test, has all
the findings it had, and besides only throws that the clause used to catch. The two walks carry
different frames from that catch point on; what relates them is the trace, event by event.
-/
namespace CheckedExceptions

/-- The second list is the first one with further members, all of which have the property. -/
inductive Gains {α : Type} (P : α → Prop) : List α → List α → Prop
  | nil : Gains P [] []
  | keep (a : α) {l l' : List α} (h : Gains P l l') : Gains P (a :: l) (a :: l')
  | gain {a : α} (ha : P a) {l l' : List α} (h : Gains P l l') : Gains P l (a :: l')

namespace Gains

variable {α β : Type} {P : α → Prop} {l l' k k' : List α}

theorem refl (l : List α) : Gains P l l := by
  induction l with
  | nil => exact .nil
  | cons a l ih => exact ih.keep a

theorem append (h : Gains P l l') (hk : Gains P k k') : Gains P (l ++ k) (l' ++ k') := by
  induction h with
  | nil => exact hk
  | keep a _ ih => exact ih.keep a
  | gain ha _ ih => exact ih.gain ha

theorem map {Q : β → Prop} {f : α → β} (hf : ∀ a, P a → Q (f a)) (h : Gains P l l') :
    Gains Q (l.map f) (l'.map f) := by
  induction h with
  | nil => exact .nil
  | keep a _ ih => exact ih.keep (f a)
  | gain ha _ ih => exact ih.gain (hf _ ha)

theorem sublist (h : Gains P l l') : l.Sublist l' := by
  induction h with
  | nil => exact .slnil
  | keep a _ ih => exact ih.cons_cons a
  | gain _ _ ih => exact ih.cons _

theorem exists_extra (h : Gains P l l') : ∃ extra, l'.Perm (l ++ extra) ∧ ∀ a ∈ extra, P a := by
  induction h with
  | nil => exact ⟨[], .nil, List.forall_mem_nil _⟩
  | keep a _ ih =>
    obtain ⟨extra, hperm, hextra⟩ := ih
    exact ⟨extra, hperm.cons a, hextra⟩
  | gain ha _ ih =>
    obtain ⟨extra, hperm, hextra⟩ := ih
    exact ⟨_ :: extra, (hperm.cons _).trans List.perm_middle.symm,
      List.forall_mem_cons.mpr ⟨ha, hextra⟩⟩

end Gains

/-- The second list of types handles nothing that the first one does not, and what it fails to
handle are subtypes of `t`. -/
structure Classification.Misses (c : Classification) (t : ExceptionType)
    (types types' : List ExceptionType) : Prop where
  less : ∀ u, c.handles types' u = true → c.handles types u = true
  missed : ∀ u, c.handles types u = true → c.handles types' u = true ∨ c.isSubtype u t = true

namespace Classification.Misses

variable {c : Classification} {t : ExceptionType} {types types' more more' : List ExceptionType}

theorem refl (types : List ExceptionType) : c.Misses t types types :=
  ⟨fun _ h => h, fun _ h => Or.inl h⟩

theorem append (h : c.Misses t types types') (hmore : c.Misses t more more') :
    c.Misses t (types ++ more) (types' ++ more') := by
  constructor
  · intro u hu
    rw [Event.handles_append, Bool.or_eq_true] at hu ⊢
    exact hu.imp (h.less u) (hmore.less u)
  · intro u hu
    rw [Event.handles_append, Bool.or_eq_true] at hu ⊢
    rcases hu with hu | hu
    · exact (h.missed u hu).imp_left Or.inl
    · exact (hmore.missed u hu).imp_left Or.inr

/-- Without the type itself, only its subtypes are missed. -/
theorem singleton (t : ExceptionType) : c.Misses t [t] [] := by
  constructor
  · intro u hu
    cases hu
  · intro u hu
    exact Or.inr (by simpa [handles] using hu)

end Classification.Misses

namespace Event

/-- The same throw, or a catch that misses at most subtypes of `t`. -/
inductive Loosens (c : Classification) (t : ExceptionType) : Event → Event → Prop
  | throws (x : Candidate) : Loosens c t (throws x) (throws x)
  | catches {types types' : List ExceptionType} (h : c.Misses t types types') :
      Loosens c t (catches types) (catches types')

variable {c : Classification} {t : ExceptionType} {trace trace' : List Event}

theorem loosens_refl (trace : List Event) : List.Forall₂ (Loosens c t) trace trace := by
  rw [List.forall₂_same]
  intro event _
  cases event with
  | throws x => exact .throws x
  | catches types => exact .catches (.refl types)

theorem caughtIn_misses (h : List.Forall₂ (Loosens c t) trace trace') :
    c.Misses t (caughtIn trace) (caughtIn trace') := by
  induction h with
  | nil => exact .refl _
  | cons hevent _ ih =>
    cases hevent with
    | throws x => exact ih
    | catches hmisses => exact hmisses.append ih

/-- What escapes a trace escapes a looser one too; what escapes in addition is below `t`. -/
theorem escaping_gains (h : List.Forall₂ (Loosens c t) trace trace')
    (declared : List ExceptionType) :
    Gains (fun x => c.isSubtype x.type t = true) (escaping c declared trace)
      (escaping c declared trace') := by
  induction h with
  | nil => exact .nil
  | @cons event event' later later' hevent hlater ih =>
    cases hevent with
    | catches _ => exact ih
    | throws x =>
      have hmisses := caughtIn_misses hlater
      simp only [escaping]
      cases hdropped : c.isUnchecked x.type || c.handles declared x.type with
      | true => simpa using ih
      | false =>
        cases hloose : c.handles (caughtIn later') x.type with
        | true => simpa [hmisses.less _ hloose] using ih
        | false =>
          cases htight : c.handles (caughtIn later) x.type with
          | false => simpa using ih.keep x
          | true =>
            -- Caught before and not any more: the one place where a throw is gained.
            have hbelow := (hmisses.missed _ htight).resolve_left (by simp [hloose])
            simpa using ih.gain (a := x) hbelow

end Event

/-- The finding is a throw of a subtype of `t`. -/
def Finding.IsThrowBelow (c : Classification) (t : ExceptionType) : Finding → Prop
  | unhandled _ type => c.isSubtype type t = true
  | _ => False

theorem Finding.IsThrowBelow.eq_unhandled {c : Classification} {t : ExceptionType} {f : Finding}
    (h : f.IsThrowBelow c t) : ∃ span u, f = .unhandled span u ∧ c.isSubtype u t = true := by
  cases f with
  | unhandled span u => exact ⟨span, u, rfl, h⟩
  | cannotOverride => cases h
  | invalidDeclaration => cases h

theorem Event.unhandled_gains {c : Classification} {t : ExceptionType} {trace trace' : List Event}
    (h : List.Forall₂ (Loosens c t) trace trace') (declared : List ExceptionType) :
    Gains (Finding.IsThrowBelow c t) (unhandled c declared trace) (unhandled c declared trace') :=
  (escaping_gains h declared).map fun _ hx => hx

/-- The second node does what the first one does, except that it misses throws of subtypes of
`t`. -/
structure Node.Loosened (r : Rules) (t : ExceptionType) (n n' : Node) : Prop where
  face : n.SameFace n'
  sound : n.Sound → n'.Sound
  trace : List.Forall₂ (Event.Loosens r.classification t) (n.trace r.overridden)
    (n'.trace r.overridden)
  findings : Gains (Finding.IsThrowBelow r.classification t) (n.findings r) (n'.findings r)

namespace Node.Loosened

variable {r : Rules} {t : ExceptionType} {n n' : Node}

theorem content (h : n.Loosened r t n') (l : Layer) :
    List.Forall₂ (Event.Loosens r.classification t) (l.content r.overridden n)
      (l.content r.overridden n') := by
  obtain ⟨pre, post, -, haround⟩ := l.content_split r.overridden n
  rw [haround n (.refl n), haround n' h.face]
  exact List.rel_append (Event.loosens_refl pre)
    (List.rel_append h.trace (Event.loosens_refl post))

theorem leaving (h : n.Loosened r t n') (l : Layer) :
    Gains (Finding.IsThrowBelow r.classification t) (l.leaving r n) (l.leaving r n') := by
  unfold Layer.leaving
  split
  · exact Event.unhandled_gains (h.content l) _
  · exact .nil

/-- One layer further out, the nodes are related in the same way. -/
theorem fill (h : n.Loosened r t n') (l : Layer) : (l.fill n).Loosened r t (l.fill n') := by
  refine ⟨l.sameFace_fill n n', Layer.sound_fill_of_sameFace h.face h.sound l, ?_, ?_⟩
  · cases hpoint : l.isPoint with
    | true =>
      rw [Layer.trace_fill_point r.overridden hpoint, Layer.trace_fill_point r.overridden hpoint]
      exact .nil
    | false =>
      rw [Layer.trace_fill r.overridden hpoint, Layer.trace_fill r.overridden hpoint]
      exact h.content l
  · cases hopen : l.isOpen with
    | false =>
      rw [Layer.findings_fill_closed r hopen n n']
      exact .refl _
    | true =>
      obtain ⟨before, after, haround⟩ := l.findings_around r hopen
      rw [haround n, haround n']
      exact (Gains.refl before).append (h.findings.append ((Gains.refl after).append (h.leaving l)))

theorem fillAll (h : n.Loosened r t n') (layers : List Layer) :
    (Layer.fillAll layers n).Loosened r t (Layer.fillAll layers n') := by
  induction layers generalizing n n' with
  | nil => exact h
  | cons l layers ih => exact ih (h.fill l)

theorem allFindings (h : n.Loosened r t n') :
    Gains (Finding.IsThrowBelow r.classification t) (n.allFindings r) (n'.allFindings r) :=
  h.findings.append (Event.unhandled_gains h.trace [])

end Node.Loosened

/-- The first clause catches `t` by an unguarded type test. The second one is the same clause with
a guard, a name or a literal, or with an extractor that invokes nothing in place of the test. -/
inductive Clause.Undecided (t : ExceptionType) : Clause → Clause → Prop
  | referenceGuard (binder : Option String) (body : Node) (name : String)
      (type : Option ExceptionType) (patternSpan guardSpan span : Span) :
      Undecided t (.mk (.plain (.typePattern t binder) [] patternSpan) .absent body span)
        (.mk (.plain (.typePattern t binder) [] patternSpan)
          (.plain (.reference name type) [] guardSpan) body span)
  | literalGuard (binder : Option String) (body : Node) (value : Constant)
      (patternSpan guardSpan span : Span) :
      Undecided t (.mk (.plain (.typePattern t binder) [] patternSpan) .absent body span)
        (.mk (.plain (.typePattern t binder) [] patternSpan)
          (.plain (.literal value) [] guardSpan) body span)
  | extractor (binder : Option String) (body : Node) (name : String)
      (patternSpan extractorSpan span : Span) :
      Undecided t (.mk (.plain (.typePattern t binder) [] patternSpan) .absent body span)
        (.mk (.plain (.extractorPattern name false) [] extractorSpan) .absent body span)

namespace Clause.Undecided

variable {t : ExceptionType} {c c' : Clause}

theorem caught (h : Clause.Undecided t c c') : c.caught? = some t ∧ c'.caught? = none := by
  cases h <;> exact ⟨rfl, rfl⟩

theorem sound (h : Clause.Undecided t c c') (hc : (Node.clause c).Sound) :
    (Node.clause c').Sound := by
  cases h <;>
  · obtain ⟨-, -, hbody⟩ := (Node.sound_clause _ _ _ _).mp hc
    simp [Node.sound_clause, Node.sound_plain, Node.sound_absent, hbody]

theorem trace (h : Clause.Undecided t c c') (bases : Symbol → List Symbol) :
    c'.trace bases = c.trace bases := by
  cases h <;> simp [Clause.trace, Node.trace, Node.traceAll]

theorem findings (h : Clause.Undecided t c c') (r : Rules) : c'.findings r = c.findings r := by
  cases h <;> simp [Clause.findings, Node.findings, Node.findingsAll]

theorem types_misses (h : Clause.Undecided t c c') (r : Rules) (before after : List Clause) :
    r.classification.Misses t (Clause.types (before ++ c :: after))
      (Clause.types (before ++ c' :: after)) := by
  obtain ⟨hcaught, hcaught'⟩ := h.caught
  have htypes : Clause.types (before ++ c :: after) =
      Clause.types before ++ ([t] ++ Clause.types after) := by
    simp [Clause.types, hcaught]
  have htypes' : Clause.types (before ++ c' :: after) =
      Clause.types before ++ ([] ++ Clause.types after) := by
    simp [Clause.types, hcaught']
  rw [htypes, htypes']
  exact (Classification.Misses.refl _).append ((Classification.Misses.singleton t).append (.refl _))

/-- A catch point with one clause made undecidable only misses what that clause caught. -/
theorem loosened (h : Clause.Undecided t c c') (r : Rules) (body : Node)
    (before after : List Clause) (finalizer : Node) (span : Span) :
    (Node.tryCatch body (before ++ c :: after) finalizer span).Loosened r t
      (.tryCatch body (before ++ c' :: after) finalizer span) := by
  refine ⟨⟨rfl, rfl, rfl⟩, ?_, ?_, ?_⟩
  · intro hsound
    rw [Node.sound_tryCatch, List.forall_mem_append, List.forall_mem_cons] at hsound ⊢
    obtain ⟨hbody, ⟨hbefore, hclause, hafter⟩, hfinalizer⟩ := hsound
    exact ⟨hbody, ⟨hbefore, h.sound hclause, hafter⟩, hfinalizer⟩
  · simp only [Node.trace, Clause.traceAll_append, Clause.traceAll, h.trace]
    refine List.rel_append (Event.loosens_refl _) (.cons ?_ (Event.loosens_refl _))
    exact .catches (h.types_misses r before after)
  · simp only [Node.findings, Clause.findingsAll_append, Clause.findingsAll, h.findings]
    exact .refl _

end Clause.Undecided

/-- Wherever a catch point stands in a tree, a tree that differs in one clause of it, which was an
unguarded test for `t` and is made undecidable, can be checked as well. All findings stay, in their
order; what is found in addition are throws of subtypes of `t`. -/
theorem undecided_clause_hides_nothing (r : Rules) (t : ExceptionType) {c c' : Clause}
    (hclause : Clause.Undecided t c c') (layers : List Layer) (body : Node)
    (before after : List Clause) (finalizer : Node) (span : Span) {found : List Finding}
    (hfound : Flow.Finds r
      (Layer.fillAll layers (.tryCatch body (before ++ c :: after) finalizer span)) found) :
    ∃ found' extra, Flow.Finds r
        (Layer.fillAll layers (.tryCatch body (before ++ c' :: after) finalizer span)) found' ∧
      found.Sublist found' ∧ found'.Perm (found ++ extra) ∧
      ∀ f ∈ extra, ∃ place u, f = .unhandled place u ∧ r.classification.isSubtype u t = true := by
  obtain ⟨hsound, rfl⟩ := Flow.finds_iff.mp hfound
  have hloosened := (hclause.loosened r body before after finalizer span).fillAll layers
  have hgains := hloosened.allFindings
  obtain ⟨extra, hperm, hextra⟩ := hgains.exists_extra
  refine ⟨_, extra, Flow.finds_of_sound r (hloosened.sound hsound), hgains.sublist, hperm, ?_⟩
  intro f hf
  exact (hextra f hf).eq_unhandled

/-- A definition whose body is protected by the given clause and by another one behind it. -/
def protectedBy (c : Clause) : Node :=
  .funcDef ⟨"f", .function, []⟩ []
    [.tryCatch (.plain .block [raiseAt 1 "FileNotFoundException", raiseAt 2 "InterruptedException"]
      {}) [c, ignoring "Error"] .absent {}] {}

/-- The clause that catches a type and does nothing, under a guard. -/
def ignoringIf (guard name : String) : Clause :=
  .mk (.plain (.typePattern ⟨name⟩ none) [] {}) (.plain (.reference guard none) [] {})
    (.plain .block [] {}) {}

theorem undecided_clause_hides_nothing_under_guard :
    Flow.Finds standardRules (protectedBy (ignoring "IOException"))
        [.unhandled { line := some 2 } ⟨"InterruptedException"⟩] ∧
      ∃ found' extra,
        Flow.Finds standardRules (protectedBy (ignoringIf "ready" "IOException")) found' ∧
        found' = [.unhandled { line := some 1 } ⟨"FileNotFoundException"⟩,
          .unhandled { line := some 2 } ⟨"InterruptedException"⟩] ∧
        found'.Perm ([.unhandled { line := some 2 } ⟨"InterruptedException"⟩] ++ extra) ∧
        ∀ f ∈ extra, ∃ place u, f = .unhandled place u ∧
          standardRules.classification.isSubtype u ⟨"IOException"⟩ = true := by
  have hsound : (protectedBy (ignoring "IOException")).Sound := by
    simp [protectedBy, Node.sound_funcDef, Node.sound_tryCatch, Node.sound_plain,
      Node.sound_absent, sound_raiseAt, sound_ignoring]
  have hfound := Flow.finds_of_sound standardRules hsound
  obtain ⟨found', extra, hfound', -, hperm, hextra⟩ :=
    undecided_clause_hides_nothing standardRules ⟨"IOException"⟩
      (.referenceGuard none (.plain .block [] {}) "ready" none {} {} {})
      [.funcDef ⟨"f", .function, []⟩ [] [] [] {}] _ [] [ignoring "Error"] .absent {} hfound
  exact ⟨hfound, found', extra, hfound', (Flow.finds_iff.mp hfound').2, hperm, hextra⟩

end CheckedExceptions
