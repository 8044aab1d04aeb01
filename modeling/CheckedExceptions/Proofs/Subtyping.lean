import CheckedExceptions.Hierarchy

/-!
The subtype relation of a table that was built by registration. Every name in such a table is fresh
where it enters and every parent stands behind its entry, so that all supertypes of a name are found
in the part of the table behind it. This makes the relation transitive, and a table that grows
keeps the relation between the names it had.
-/
namespace CheckedExceptions

namespace Hierarchy

/-- A name of some entry of a table. -/
def Named (entries : List Entry) (name : String) : Prop := ∃ e ∈ entries, e.name = name

theorem contains_iff {h : Hierarchy} {name : String} :
    h.contains name = true ↔ Named h.entries name := by
  simp [contains, Named]

theorem Named.of_suffix {entries entries' : List Entry} (h : entries <:+ entries')
    {name : String} (hnamed : Named entries name) : Named entries' name := by
  obtain ⟨e, he, hname⟩ := hnamed
  exact ⟨e, h.mem he, hname⟩

/-- Every entry has a fresh name, and its parent among the entries behind it. -/
inductive Ordered : List Entry → Prop
  | nil : Ordered []
  | cons {e : Entry} {older : List Entry} (hfresh : ¬ Named older e.name)
      (hparent : ∀ p, e.parent = some p → Named older p) (holder : Ordered older) :
      Ordered (e :: older)

/-- A registration that succeeds puts one entry in front of an ordered table. -/
theorem register_eq_ok {h h' : Hierarchy} {name : String} {parent : Option String}
    (hok : h.register name parent = .ok h') :
    h'.entries = ⟨name, parent⟩ :: h.entries ∧ ¬ Named h.entries name ∧
      ∀ p, parent = some p → Named h.entries p := by
  unfold register at hok
  split at hok
  · cases hok
  · rename_i hfresh
    have hfresh' : ¬ Named h.entries name := fun hnamed => hfresh (contains_iff.mpr hnamed)
    cases parent with
    | none =>
      cases hok
      exact ⟨rfl, hfresh', fun p hp => by cases hp⟩
    | some p =>
      by_cases hp : h.contains p = true
      · simp only [hp, ↓reduceIte] at hok
        cases hok
        refine ⟨rfl, hfresh', fun q hq => ?_⟩
        cases hq
        exact contains_iff.mp hp
      · simp [hp] at hok

/-- An ordered table that has the entries of the other one behind those registered since. -/
structure Grown (h h' : Hierarchy) : Prop where
  ordered : Ordered h'.entries
  suffix : h.entries <:+ h'.entries

theorem Grown.refl {h : Hierarchy} (hordered : Ordered h.entries) : Grown h h :=
  ⟨hordered, List.suffix_rfl⟩

theorem Grown.trans {h h' h'' : Hierarchy} (hfirst : Grown h h') (hsecond : Grown h' h'') :
    Grown h h'' :=
  ⟨hsecond.ordered, hfirst.suffix.trans hsecond.suffix⟩

theorem grown_register {h h' : Hierarchy} {name : String} {parent : Option String}
    (hordered : Ordered h.entries) (hok : h.register name parent = .ok h') : Grown h h' := by
  obtain ⟨hentries, hfresh, hparent⟩ := register_eq_ok hok
  constructor
  · rw [hentries]
    exact .cons hfresh hparent hordered
  · rw [hentries]
    exact List.suffix_cons _ _

/-- Registering a list of types keeps the table ordered, and keeps all that was there. -/
theorem grown_registerAll {types : List (String × Option String)} {h h' : Hierarchy}
    (hordered : Ordered h.entries) (hok : h.registerAll types = .ok h') : Grown h h' := by
  induction types generalizing h with
  | nil =>
    cases hok
    exact .refl hordered
  | cons type rest ih =>
    obtain ⟨name, parent⟩ := type
    unfold registerAll at hok
    cases hregister : h.register name parent with
    | error e => rw [hregister] at hok; cases hok
    | ok h₁ =>
      rw [hregister] at hok
      have hgrown := grown_register hordered hregister
      exact hgrown.trans (ih hgrown.ordered hok)

theorem registerAll_builtinTypes : empty.registerAll builtinTypes = .ok builtin := by rfl

theorem ordered_builtin : Ordered builtin.entries :=
  (grown_registerAll .nil registerAll_builtinTypes).ordered

/-- Both ends of a derivation are in the table. -/
theorem named_of_derives {entries : List Entry} (hordered : Ordered entries) {name sup : String}
    (h : derives entries name sup = true) : Named entries name ∧ Named entries sup := by
  induction hordered generalizing name with
  | nil => cases h
  | @cons e older hfresh hparent holder ih =>
    have hbehind : ∀ {n}, Named older n → Named (e :: older) n :=
      Named.of_suffix (List.suffix_cons e older)
    unfold derives at h
    split at h
    · rename_i hname
      refine ⟨⟨e, List.mem_cons_self, hname⟩, ?_⟩
      cases hp : e.parent with
      | none => rw [hp] at h; cases h
      | some p =>
        simp only [hp, Bool.or_eq_true, decide_eq_true_eq] at h
        rcases h with rfl | h
        · exact hbehind (hparent p hp)
        · exact hbehind (ih h).2
    · exact ⟨hbehind (ih h).1, hbehind (ih h).2⟩

/-- What was derived from the older entries is still derived when an entry is put in front. -/
theorem derives_cons {e : Entry} {older : List Entry} (hordered : Ordered (e :: older))
    {name : String} (hnamed : Named older name) (sup : String) :
    derives (e :: older) name sup = derives older name sup := by
  cases hordered with
  | cons hfresh _ _ =>
    have hne : e.name ≠ name := fun hname => hfresh (hname ▸ hnamed)
    rw [derives, if_neg hne]

/-- Growth of a table does not change what is above the names that were in it. -/
theorem derives_of_suffix {entries entries' : List Entry} (hordered : Ordered entries')
    (h : entries <:+ entries') {name : String} (hnamed : Named entries name) (sup : String) :
    derives entries' name sup = derives entries name sup := by
  induction hordered with
  | nil => rw [List.suffix_nil.mp h]
  | @cons e older hfresh hparent holder ih =>
    rcases List.suffix_cons_iff.mp h with rfl | h
    · rfl
    · rw [derives_cons (.cons hfresh hparent holder) (hnamed.of_suffix h), ih h]

/-- An entry never derives from a later one, so the second derivation only needs the part of the
table behind the entry where the first one starts. -/
theorem derives_trans {entries : List Entry} (hordered : Ordered entries) {a b c : String}
    (hab : derives entries a b = true) (hbc : derives entries b c = true) :
    derives entries a c = true := by
  induction hordered generalizing a with
  | nil => cases hab
  | @cons e older hfresh hparent holder ih =>
    have hwhole : Ordered (e :: older) := .cons hfresh hparent holder
    by_cases hname : e.name = a
    · simp only [derives, hname, ↓reduceIte] at hab ⊢
      cases hp : e.parent with
      | none => simp [hp] at hab
      | some p =>
        simp only [hp, Bool.or_eq_true, decide_eq_true_eq] at hab ⊢
        rcases hab with rfl | hab
        · exact Or.inr (derives_cons hwhole (hparent p hp) c ▸ hbc)
        · have hb : Named older b := (named_of_derives holder hab).2
          exact Or.inr (ih hab (derives_cons hwhole hb c ▸ hbc))
    · simp only [derives, hname, ↓reduceIte] at hab ⊢
      have hb : Named older b := (named_of_derives holder hab).2
      exact ih hab (derives_cons hwhole hb c ▸ hbc)

theorem isSubtype_iff {h : Hierarchy} {t u : ExceptionType} :
    h.isSubtype t u = true ↔ t = u ∨ derives h.entries t.name u.name = true := by
  simp [isSubtype]

theorem isSubtype_refl (h : Hierarchy) (t : ExceptionType) : h.isSubtype t t = true :=
  isSubtype_iff.mpr (Or.inl rfl)

theorem isSubtype_trans {h : Hierarchy} (hordered : Ordered h.entries) {t u v : ExceptionType}
    (htu : h.isSubtype t u = true) (huv : h.isSubtype u v = true) : h.isSubtype t v = true := by
  rw [isSubtype_iff] at htu huv ⊢
  rcases htu with rfl | htu
  · exact huv
  · rcases huv with rfl | huv
    · exact Or.inr htu
    · exact Or.inr (derives_trans hordered htu huv)

theorem isSubtype_of_suffix {h h' : Hierarchy} (hordered : Ordered h'.entries)
    (hsuffix : h.entries <:+ h'.entries) {t : ExceptionType} (hnamed : Named h.entries t.name)
    (u : ExceptionType) : h'.isSubtype t u = h.isSubtype t u := by
  simp only [isSubtype, derives_of_suffix hordered hsuffix hnamed]

theorem get_eq_ok {h : Hierarchy} {name : String} (hnamed : Named h.entries name) :
    h.get name = .ok ⟨name⟩ := by
  rw [get, if_pos (contains_iff.mpr hnamed)]

end Hierarchy

/-- The roots among the builtin types. -/
def Roots.builtin : Roots :=
  ⟨⟨Hierarchy.throwableName⟩, ⟨Hierarchy.runtimeName⟩, ⟨Hierarchy.errorName⟩,
    [⟨Hierarchy.machineErrorName⟩, ⟨Hierarchy.assertionErrorName⟩, ⟨Hierarchy.linkageErrorName⟩]⟩

namespace Hierarchy

/-- Every table with the names of the builtin types has the same roots. -/
theorem roots_eq_of_contains {h : Hierarchy}
    (hnames : ∀ name, builtin.contains name = true → h.contains name = true) :
    h.roots = .ok .builtin := by
  have hget : ∀ name, builtin.contains name = true → h.get name = .ok ⟨name⟩ :=
    fun name hname => get_eq_ok (contains_iff.mp (hnames name hname))
  unfold roots
  rw [hget throwableName rfl, hget runtimeName rfl, hget errorName rfl, hget machineErrorName rfl,
    hget assertionErrorName rfl, hget linkageErrorName rfl]
  rfl

theorem roots_eq_builtin {h : Hierarchy} (hsuffix : builtin.entries <:+ h.entries) :
    h.roots = .ok .builtin :=
  roots_eq_of_contains fun _ hname =>
    contains_iff.mpr ((contains_iff.mp hname).of_suffix hsuffix)

end Hierarchy

end CheckedExceptions
