import CheckedExceptions.Proofs.Subtyping
import CheckedExceptions.Symbol
import Mathlib.Data.List.Nodup
import Mathlib.Order.WellFounded

/-!
The types above a type. Each step from a type to its parent goes down in depth, the number of types
above it in the table, so that every climb comes to an end, and the climb that collects all types
above and the one that looks for a single type find the same. The subtype relation is then an order
in which the types above any type form a chain. This holds of every table that registrations lead
to, whether they succeed or fail.
-/
namespace CheckedExceptions

/-- A request to register a type. Its parent is given by name or as a type, or is missing. -/
structure Registration where
  name : String
  parent : Option TypeRef
deriving DecidableEq, Repr

namespace Hierarchy

/-- The answer to a request, and the table after it. -/
def perform (h : Hierarchy) (c : Registration) :
    Except RegistrationError ExceptionType × Hierarchy :=
  match h.register c.name (c.parent.map TypeRef.text) with
  | .ok h' => (.ok ⟨c.name⟩, h')
  | .error e => (.error e, h)

/-- The table after some requests. -/
def performAll (h : Hierarchy) (calls : List Registration) : Hierarchy :=
  calls.foldl (fun h c => (h.perform c).2) h

theorem perform_eq_self_of_error {h : Hierarchy} {c : Registration} {e : RegistrationError}
    (herror : (h.perform c).1 = .error e) : (h.perform c).2 = h := by
  unfold perform at herror ⊢
  cases hregister : h.register c.name (c.parent.map TypeRef.text) with
  | error e' => rfl
  | ok h' =>
    rw [hregister] at herror
    cases herror

theorem grown_perform {h : Hierarchy} (hordered : Ordered h.entries) (c : Registration) :
    Grown h (h.perform c).2 := by
  unfold perform
  cases hregister : h.register c.name (c.parent.map TypeRef.text) with
  | error e => exact .refl hordered
  | ok h' => exact grown_register hordered hregister

theorem grown_performAll {h : Hierarchy} (hordered : Ordered h.entries)
    (calls : List Registration) : Grown h (h.performAll calls) := by
  induction calls generalizing h with
  | nil => exact .refl hordered
  | cons c calls ih =>
    have hgrown := grown_perform hordered c
    exact hgrown.trans (ih hgrown.ordered)

section Parents

/-- The number of types above a name in a table. -/
def depth : List Entry → String → Nat
  | [], _ => 0
  | e :: older, name =>
    if e.name = name then
      match e.parent with
      | some p => depth older p + 1
      | none => 0
    else depth older name

theorem depth_le_length (entries : List Entry) (name : String) :
    depth entries name ≤ entries.length := by
  induction entries generalizing name with
  | nil => exact Nat.le_refl 0
  | cons e older ih =>
    unfold depth
    rw [List.length_cons]
    split
    · split
      · have hparent := ih ‹String›
        omega
      · omega
    · have hname := ih name
      omega

theorem parentOf?_cons (e : Entry) (older : List Entry) (t : ExceptionType) :
    parentOf? ⟨e :: older⟩ t =
      if e.name = t.name then e.parent.map ExceptionType.mk else parentOf? ⟨older⟩ t := by
  by_cases hname : e.name = t.name
  · simp [parentOf?, hname]
  · simp [parentOf?, hname]

theorem named_of_parentOf? {entries : List Entry} (hordered : Ordered entries)
    {t p : ExceptionType} (h : parentOf? ⟨entries⟩ t = some p) : Named entries p.name := by
  induction hordered with
  | nil => cases h
  | @cons e older hfresh hparent holder ih =>
    apply Named.of_suffix (List.suffix_cons e older)
    rw [parentOf?_cons] at h
    split at h
    · obtain ⟨q, hq, rfl⟩ := Option.map_eq_some_iff.mp h
      exact hparent q hq
    · exact ih h

/-- A parent stands behind its entry, so it is looked up there alone. -/
theorem depth_parent {entries : List Entry} (hordered : Ordered entries) {t p : ExceptionType}
    (h : parentOf? ⟨entries⟩ t = some p) :
    depth entries t.name = depth entries p.name + 1 := by
  induction hordered with
  | nil => cases h
  | @cons e older hfresh hparent holder ih =>
    rw [parentOf?_cons] at h
    have hne : ∀ {q : String}, Named older q → e.name ≠ q := by
      intro q hq heq
      exact hfresh (heq ▸ hq)
    by_cases hname : e.name = t.name
    · rw [if_pos hname] at h
      obtain ⟨q, hq, rfl⟩ := Option.map_eq_some_iff.mp h
      have hbehind := hne (hparent q hq)
      simp only [depth, hname, ↓reduceIte, hq]
      rw [if_neg (hname ▸ hbehind)]
    · rw [if_neg hname] at h
      have hbehind := hne (named_of_parentOf? holder h)
      simp only [depth, hname, hbehind, ↓reduceIte]
      exact ih h

theorem derives_step {entries : List Entry} (hordered : Ordered entries) (t u : ExceptionType) :
    derives entries t.name u.name =
      match parentOf? ⟨entries⟩ t with
      | some p => p = u || derives entries p.name u.name
      | none => false := by
  induction hordered with
  | nil => rfl
  | @cons e older hfresh hparent holder ih =>
    have hwhole : Ordered (e :: older) := .cons hfresh hparent holder
    rw [parentOf?_cons]
    by_cases hname : e.name = t.name
    · rw [if_pos hname, derives, if_pos hname]
      cases hp : e.parent with
      | none => rfl
      | some p =>
        have hsame : (p = u.name) = (ExceptionType.mk p = u) := by
          cases u
          simp
        simp only [Option.map_some, derives_cons hwhole (hparent p hp), hsame]
    · rw [if_neg hname, derives, if_neg hname, ih]
      cases hp : parentOf? ⟨older⟩ t with
      | none => rfl
      | some p => simp only [derives_cons hwhole (named_of_parentOf? holder hp)]

end Parents

section Climbing

variable {h : Hierarchy}

/-- The search for one type above a type looks at the type and then goes on from its parent. -/
theorem isSubtype_step (hordered : Ordered h.entries) (t u : ExceptionType) :
    h.isSubtype t u =
      (t = u || match h.parentOf? t with
        | some p => h.isSubtype p u
        | none => false) := by
  rw [isSubtype, derives_step hordered]
  rfl

/-- With as many steps as a type is deep, a climb has seen all there is above it. -/
theorem climb_eq_climb (hordered : Ordered h.entries) {t : ExceptionType} {n m : Nat}
    (hn : depth h.entries t.name ≤ n) (hm : depth h.entries t.name ≤ m) :
    h.climb n t = h.climb m t := by
  induction n generalizing t m with
  | zero =>
    have hroot : h.parentOf? t = none := by
      by_contra hsome
      obtain ⟨p, hp⟩ := Option.ne_none_iff_exists'.mp hsome
      have hdepth := depth_parent hordered hp
      omega
    cases m with
    | zero => rfl
    | succ m => rw [climb, climb, hroot]
  | succ n ih =>
    cases hp : h.parentOf? t with
    | none =>
      cases m with
      | zero => rw [climb, climb, hp]
      | succ m => rw [climb, climb, hp]
    | some p =>
      have hdepth := depth_parent hordered hp
      obtain ⟨m, rfl⟩ : ∃ k, m = k + 1 := ⟨m - 1, by omega⟩
      have hrest : h.climb n p = h.climb m p := ih (by omega) (by omega)
      rw [climb, climb, hp]
      simp only [hrest]

/-- The types above a type are the type itself and those above its parent. -/
theorem ancestors_step (hordered : Ordered h.entries) (t : ExceptionType) :
    h.ancestors t = t :: match h.parentOf? t with
      | some p => h.ancestors p
      | none => [] := by
  have hlength := depth_le_length h.entries t.name
  unfold ancestors
  cases hp : h.parentOf? t with
  | none =>
    cases h.entries.length with
    | zero => rw [climb]
    | succ n => rw [climb, hp]
  | some p =>
    have hdepth := depth_parent hordered hp
    obtain ⟨n, hn⟩ : ∃ n, h.entries.length = n + 1 := ⟨h.entries.length - 1, by omega⟩
    have hrest : h.climb n p = h.climb (n + 1) p :=
      climb_eq_climb hordered (by omega) (by omega)
    rw [hn, climb, hp]
    simp only [hrest]

theorem parentOf?_wellFounded (hordered : Ordered h.entries) :
    WellFounded fun p t => h.parentOf? t = some p := by
  apply Subrelation.wf (r := InvImage (· < ·) fun t : ExceptionType => depth h.entries t.name)
  · intro p t hp
    have hdepth := depth_parent hordered hp
    change depth h.entries p.name < depth h.entries t.name
    omega
  · exact InvImage.wf _ Nat.lt_wfRel.wf

/-- What the whole climb collects is what the search for a single type finds. -/
theorem mem_ancestors_iff (hordered : Ordered h.entries) {t u : ExceptionType} :
    u ∈ h.ancestors t ↔ h.isSubtype t u = true := by
  induction t using (parentOf?_wellFounded hordered).induction with
  | _ t ih =>
    rw [ancestors_step hordered, isSubtype_step hordered, List.mem_cons, Bool.or_eq_true,
      decide_eq_true_eq, eq_comm]
    cases hp : h.parentOf? t with
    | none => simp
    | some p => simp only [ih p hp]

/-- Everything above a type is at most as deep as the type. -/
theorem depth_le_of_isSubtype (hordered : Ordered h.entries) {t u : ExceptionType}
    (htu : h.isSubtype t u = true) :
    t = u ∨ depth h.entries u.name < depth h.entries t.name := by
  induction t using (parentOf?_wellFounded hordered).induction with
  | _ t ih =>
    rw [isSubtype_step hordered, Bool.or_eq_true, decide_eq_true_eq] at htu
    rcases htu with heq | habove
    · exact Or.inl heq
    · cases hp : h.parentOf? t with
      | none =>
        rw [hp] at habove
        cases habove
      | some p =>
        rw [hp] at habove
        have hdepth := depth_parent hordered hp
        right
        rcases ih p hp habove with rfl | hlt
        · omega
        · omega

theorem isSubtype_antisymm (hordered : Ordered h.entries) {t u : ExceptionType}
    (htu : h.isSubtype t u = true) (hut : h.isSubtype u t = true) : t = u := by
  rcases depth_le_of_isSubtype hordered htu with heq | hlt
  · exact heq
  · rcases depth_le_of_isSubtype hordered hut with heq | hlt'
    · exact heq.symm
    · omega

theorem nodup_ancestors (hordered : Ordered h.entries) (t : ExceptionType) :
    (h.ancestors t).Nodup := by
  induction t using (parentOf?_wellFounded hordered).induction with
  | _ t ih =>
    rw [ancestors_step hordered]
    cases hp : h.parentOf? t with
    | none => exact List.nodup_singleton t
    | some p =>
      refine List.nodup_cons.mpr ⟨fun hmem => ?_, ih p hp⟩
      have hdepth := depth_parent hordered hp
      rcases depth_le_of_isSubtype hordered ((mem_ancestors_iff hordered).mp hmem) with rfl | hlt
      · omega
      · omega

/-- Two types above a type are met one after the other on the same climb. -/
theorem isSubtype_total_above (hordered : Ordered h.entries) {t u v : ExceptionType}
    (htu : h.isSubtype t u = true) (htv : h.isSubtype t v = true) :
    h.isSubtype u v = true ∨ h.isSubtype v u = true := by
  induction t using (parentOf?_wellFounded hordered).induction with
  | _ t ih =>
    have hu := htu
    have hv := htv
    rw [isSubtype_step hordered, Bool.or_eq_true, decide_eq_true_eq] at hu hv
    rcases hu with rfl | hu
    · exact Or.inl htv
    · rcases hv with rfl | hv
      · exact Or.inr htu
      · cases hp : h.parentOf? t with
        | none =>
          rw [hp] at hu
          cases hu
        | some p =>
          rw [hp] at hu hv
          exact ih p hp hu hv

end Climbing

/-- The table is a forest of types: both ways to look at the types above a type come to an end and
agree, and they give an order in which these types form a chain. -/
structure IsForest (h : Hierarchy) : Prop where
  parent_registered : ∀ e ∈ h.entries, ∀ p, e.parent = some p → h.contains p = true
  climbs_end : WellFounded fun p t => h.parentOf? t = some p
  ancestors_eq : ∀ t, h.ancestors t = t :: match h.parentOf? t with
    | some p => h.ancestors p
    | none => []
  ancestors_nodup : ∀ t, (h.ancestors t).Nodup
  isSubtype_eq : ∀ t u, h.isSubtype t u = (t = u || match h.parentOf? t with
    | some p => h.isSubtype p u
    | none => false)
  isSubtype_iff : ∀ t u, h.isSubtype t u = true ↔ u ∈ h.ancestors t
  refl : ∀ t, h.isSubtype t t = true
  trans : ∀ t u v, h.isSubtype t u = true → h.isSubtype u v = true → h.isSubtype t v = true
  antisymm : ∀ t u, h.isSubtype t u = true → h.isSubtype u t = true → t = u
  comparable : ∀ t u v, h.isSubtype t u = true → h.isSubtype t v = true →
    h.isSubtype u v = true ∨ h.isSubtype v u = true

theorem contains_parent {entries : List Entry} (hordered : Ordered entries) {e : Entry}
    (he : e ∈ entries) {p : String} (hp : e.parent = some p) : Named entries p := by
  induction hordered with
  | nil => cases he
  | @cons e' older hfresh hparent holder ih =>
    apply Named.of_suffix (List.suffix_cons e' older)
    rcases List.mem_cons.mp he with rfl | hmem
    · exact hparent p hp
    · exact ih hmem

theorem isForest_of_ordered {h : Hierarchy} (hordered : Ordered h.entries) : h.IsForest where
  parent_registered _ he _ hp := contains_iff.mpr (contains_parent hordered he hp)
  climbs_end := parentOf?_wellFounded hordered
  ancestors_eq := ancestors_step hordered
  ancestors_nodup := nodup_ancestors hordered
  isSubtype_eq := isSubtype_step hordered
  isSubtype_iff _ _ := (mem_ancestors_iff hordered).symm
  refl := isSubtype_refl h
  trans _ _ _ := isSubtype_trans hordered
  antisymm _ _ := isSubtype_antisymm hordered
  comparable _ _ _ := isSubtype_total_above hordered

end Hierarchy

/-- Whatever is registered in the empty table or in the builtin one, with or without success, leaves
a forest of types; and a request that fails leaves the table as it was. -/
theorem registrations_keep_forest {start : Hierarchy}
    (hstart : start = .empty ∨ start = .builtin) (calls : List Registration) :
    (start.performAll calls).IsForest ∧
      ∀ (c : Registration) (e : RegistrationError),
        ((start.performAll calls).perform c).1 = .error e →
          ((start.performAll calls).perform c).2 = start.performAll calls := by
  have hordered : Hierarchy.Ordered start.entries := by
    rcases hstart with rfl | rfl
    · exact .nil
    · exact Hierarchy.ordered_builtin
  refine ⟨Hierarchy.isForest_of_ordered (Hierarchy.grown_performAll hordered calls).ordered, ?_⟩
  intro c e herror
  exact Hierarchy.perform_eq_self_of_error herror

/-- A second root with a type below it, a type that would be its own parent, a parent that is not
registered and a name that is taken. -/
def mixedRegistrations : List Registration :=
  [⟨"Signal", none⟩, ⟨"Loop", some (.raw "Loop")⟩, ⟨"Alarm", some (.resolved ⟨"Signal"⟩)⟩,
    ⟨"Late", some (.raw "Missing")⟩, ⟨"Error", some (.raw "Alarm")⟩]

theorem registrations_keep_forest_of_mixedRegistrations :
    let h := Hierarchy.builtin.performAll mixedRegistrations
    h.IsForest ∧ (h.perform ⟨"Late", some (.raw "Missing")⟩).2 = h ∧
      h.entries = ⟨"Alarm", some "Signal"⟩ :: ⟨"Signal", none⟩ :: Hierarchy.builtin.entries := by
  intro h
  obtain ⟨hforest, hfail⟩ := registrations_keep_forest (Or.inr rfl) mixedRegistrations
  refine ⟨hforest, hfail ⟨"Late", some (.raw "Missing")⟩ (.unknownParent "Late" "Missing") ?_, ?_⟩
  · decide
  · decide

end CheckedExceptions
