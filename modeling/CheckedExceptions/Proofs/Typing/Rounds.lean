import CheckedExceptions.Proofs.Typing.Registration

/-!
When the exception types of a program can be registered. Their names must be new and differ, and
from each of them the parents must lead to a registered type. Then every round finds a type whose
parent is registered by now, so the rounds end with all types in the table; the order in which the
types are declared only decides in which round a type has its turn.
-/
namespace CheckedExceptions

open CheckedExceptions.Language
open CheckedExceptions.Hierarchy (Named Ordered Grown)

namespace Hierarchy

/-- From the name, the parents among these entries lead to a registered type. -/
inductive Grounded (h : Hierarchy) (new : List Entry) : String → Prop
  | registered {name : String} (hname : h.contains name = true) : Grounded h new name
  | declared {name parent : String} (hentry : ⟨name, some parent⟩ ∈ new)
      (hparent : Grounded h new parent) : Grounded h new name

theorem Grounded.mono {h : Hierarchy} {new new' : List Entry} {name : String}
    (hgrounded : Grounded h new name) (hsub : new ⊆ new') : Grounded h new' name := by
  induction hgrounded with
  | registered hname => exact .registered hname
  | declared hentry _ ih => exact .declared (hsub hentry) ih

/-- The entries can all be registered, in a suitable order. -/
structure Registrable (h : Hierarchy) (new : List Entry) : Prop where
  distinct : (new.map (·.name)).Nodup
  fresh : ∀ e ∈ new, h.contains e.name = false
  grounded : ∀ e ∈ new, Grounded h new e.name

theorem Registrable.perm {h : Hierarchy} {new new' : List Entry} (hnew : h.Registrable new)
    (hperm : new.Perm new') : h.Registrable new' where
  distinct := (hperm.map _).nodup_iff.mp hnew.distinct
  fresh e he := hnew.fresh e (hperm.mem_iff.mpr he)
  grounded e he := (hnew.grounded e (hperm.mem_iff.mpr he)).mono hperm.subset

/-- On the way from a new name to a registered one, some parent is the first that is registered. -/
theorem Grounded.exists_ready {h : Hierarchy} {new : List Entry} {name : String}
    (hgrounded : Grounded h new name) :
    h.contains name = true ∨ ∃ e ∈ new, ∃ p, e.parent = some p ∧ h.contains p = true := by
  induction hgrounded with
  | registered hname => exact Or.inl hname
  | @declared name parent hentry _ ih =>
    rcases ih with hparent | hready
    · exact Or.inr ⟨_, hentry, parent, rfl, hparent⟩
    · exact Or.inr hready

theorem ordered_append {added old : List Entry} (h : Ordered (added ++ old)) :
    (added.map (·.name)).Nodup ∧ ∀ e ∈ added, ¬ Named old e.name := by
  induction added with
  | nil => exact ⟨List.nodup_nil, List.forall_mem_nil _⟩
  | cons e added ih =>
    cases h with
    | cons hfresh _ hrest =>
      obtain ⟨hdistinct, hnew⟩ := ih hrest
      rw [List.map_cons, List.nodup_cons, List.forall_mem_cons]
      refine ⟨⟨fun hmem => hfresh ?_, hdistinct⟩, fun hnamed => hfresh ?_, hnew⟩
      · obtain ⟨e', he', hname⟩ := List.mem_map.mp hmem
        exact ⟨e', List.mem_append_left old he', hname⟩
      · exact hnamed.of_suffix (List.suffix_append added old)

/-- What was registered on top of a table was grounded in it. -/
theorem grounded_of_ordered {h : Hierarchy} {added : List Entry}
    (hordered : Ordered (added ++ h.entries)) (hparents : ∀ e ∈ added, e.parent ≠ none) :
    ∀ e ∈ added, Grounded h added e.name := by
  induction added with
  | nil => exact List.forall_mem_nil _
  | cons e added ih =>
    cases hordered with
    | cons _ hparent hrest =>
      obtain ⟨hself, hothers⟩ := List.forall_mem_cons.mp hparents
      have hbehind := ih hrest hothers
      have hmono : ∀ {name}, Grounded h added name → Grounded h (e :: added) name :=
        fun hgrounded => hgrounded.mono (List.subset_cons_self e added)
      rw [List.forall_mem_cons]
      refine ⟨?_, fun e' he' => hmono (hbehind e' he')⟩
      obtain ⟨p, hp⟩ := Option.ne_none_iff_exists'.mp hself
      have hentry : (⟨e.name, some p⟩ : Entry) ∈ e :: added := by
        rw [← hp]
        exact List.mem_cons_self
      refine .declared hentry ?_
      obtain ⟨e', he', rfl⟩ := hparent p hp
      rcases List.mem_append.mp he' with he' | he'
      · exact hmono (hbehind e' he')
      · exact .registered (contains_iff.mpr ⟨e', he', rfl⟩)

theorem nodup_names {entries : List Entry} (h : Ordered entries) :
    (entries.map (·.name)).Nodup := by
  rw [← List.append_nil entries] at h
  exact (ordered_append h).1

/-- Tables with the same entries in another order have the same types with the same parents. -/
theorem same_types_of_perm {h h' : Hierarchy} (hordered : Ordered h.entries)
    (hperm : h.entries.Perm h'.entries) (t : ExceptionType) :
    h'.contains t.name = h.contains t.name ∧ h'.parentOf? t = h.parentOf? t := by
  constructor
  · rw [Bool.eq_iff_iff, contains_iff, contains_iff]
    simp only [Named, hperm.mem_iff]
  · rw [parentOf?, parentOf?, find?_key_perm Entry.name hperm (nodup_names hordered)]

end Hierarchy

namespace Typing

/-- The entry of a declared type. -/
def entryOf (d : ExceptionDecl) : Entry := ⟨d.name, some (parentName d)⟩

/-- What a round does: some of the pending types are registered, and the others wait. If the parent
of any pending type was registered before, not all of them wait. -/
structure Round (h : Hierarchy) (pending : List ExceptionDecl) (added : List Entry)
    (waiting : List ExceptionDecl) (h' : Hierarchy) : Prop where
  entries : h'.entries = added ++ h.entries
  perm : (added ++ waiting.map entryOf).Perm (pending.map entryOf)
  progress : (∃ d ∈ pending, h.contains (parentName d) = true) → waiting.length < pending.length

theorem Round.length_eq {h h' : Hierarchy} {pending waiting : List ExceptionDecl}
    {added : List Entry} (hround : Round h pending added waiting h') :
    added.length + waiting.length = pending.length := by
  have hlength := hround.perm.length_eq
  rwa [List.length_append, List.length_map, List.length_map] at hlength

variable {file : Option String} {h h' : Hierarchy} {pending waiting decls : List ExceptionDecl}

theorem registerReady_ok (hrun : registerReady file pending h = .ok waiting h') :
    ∃ added, Round h pending added waiting h' := by
  induction pending generalizing h waiting with
  | nil =>
    cases hrun
    exact ⟨[], rfl, .refl _, fun ⟨d, hd, _⟩ => by cases hd⟩
  | cons d ds ih =>
    rw [registerReady_cons] at hrun
    by_cases hready : h.contains (parentName d) = true
    · rw [if_pos hready] at hrun
      cases hregister : h.register d.name (some (parentName d)) with
      | error e =>
        rw [hregister] at hrun
        cases hrun
      | ok h₁ =>
        simp only [hregister] at hrun
        obtain ⟨added, hround⟩ := ih hrun
        have hentries := (Hierarchy.register_eq_ok hregister).1
        refine ⟨added ++ [entryOf d], ?_, ?_, fun _ => ?_⟩
        · rw [hround.entries, hentries, List.append_assoc]
          rfl
        · rw [List.append_assoc]
          exact List.perm_middle.trans (hround.perm.cons (entryOf d))
        · have hlength := hround.length_eq
          rw [List.length_cons]
          omega
    · rw [if_neg hready] at hrun
      obtain ⟨others, h₁, hrest, hreturn⟩ := bind_inv hrun
      cases hreturn
      obtain ⟨added, hround⟩ := ih hrest
      refine ⟨added, hround.entries, ?_, fun hsome => ?_⟩
      · exact List.perm_middle.trans (hround.perm.cons (entryOf d))
      · obtain ⟨d', hd', hready'⟩ := hsome
        rcases List.mem_cons.mp hd' with rfl | hd'
        · exact absurd hready' hready
        · have hprogress := hround.progress ⟨d', hd', hready'⟩
          rw [List.length_cons, List.length_cons]
          omega

/-- New names that differ are never refused. -/
theorem registerReady_succeeds (file : Option String) (hdistinct : (pending.map (·.name)).Nodup)
    (hfresh : ∀ d ∈ pending, h.contains d.name = false) :
    ∃ waiting h', registerReady file pending h = .ok waiting h' := by
  induction pending generalizing h with
  | nil => exact ⟨[], h, rfl⟩
  | cons d ds ih =>
    rw [List.map_cons, List.nodup_cons] at hdistinct
    obtain ⟨hself, hothers⟩ := List.forall_mem_cons.mp hfresh
    rw [registerReady_cons]
    by_cases hready : h.contains (parentName d) = true
    · have hregister : h.register d.name (some (parentName d)) = .ok ⟨entryOf d :: h.entries⟩ := by
        simp only [Hierarchy.register, hself, hready, Bool.false_eq_true, ↓reduceIte]
        rfl
      rw [if_pos hready, hregister]
      apply ih hdistinct.2
      intro d' hd'
      have hne : d.name ≠ d'.name := fun hname =>
        hdistinct.1 (List.mem_map.mpr ⟨d', hd', hname.symm⟩)
      have hold := hothers d' hd'
      simp only [Hierarchy.contains] at hold ⊢
      simp [entryOf, hne, hold]
    · obtain ⟨waiting, h', hrest⟩ := ih hdistinct.2 hothers
      rw [if_neg hready]
      exact ⟨d :: waiting, h', bind_ok hrest⟩

/-- The types that wait after a round can still be registered. -/
theorem Round.registrable {added : List Entry} (hround : Round h pending added waiting h')
    (hpending : h.Registrable (pending.map entryOf)) :
    h'.Registrable (waiting.map entryOf) := by
  have hall := hpending.perm hround.perm.symm
  have hdistinct := hall.distinct
  rw [List.map_append, List.nodup_append] at hdistinct
  have hgrown : ∀ {name}, h.contains name = true → h'.contains name = true := by
    intro name hname
    apply Hierarchy.contains_iff.mpr
    rw [hround.entries]
    exact (Hierarchy.contains_iff.mp hname).of_suffix (List.suffix_append added h.entries)
  refine ⟨hdistinct.2.1, fun e he => ?_, fun e he => ?_⟩
  · rw [Bool.eq_false_iff]
    intro hcontains
    obtain ⟨e', he', hname⟩ := Hierarchy.contains_iff.mp hcontains
    rw [hround.entries] at he'
    rcases List.mem_append.mp he' with he' | he'
    · exact hdistinct.2.2 _ (List.mem_map_of_mem he') _ (List.mem_map_of_mem he) hname
    · have hold := hall.fresh e (List.mem_append_right added he)
      rw [Hierarchy.contains_iff.mpr ⟨e', he', hname⟩] at hold
      cases hold
  · have hkept : ∀ {name}, h.Grounded (added ++ waiting.map entryOf) name →
        h'.Grounded (waiting.map entryOf) name := by
      intro name hbefore
      induction hbefore with
      | registered hname => exact .registered (hgrown hname)
      | @declared name parent hentry _ ih =>
        rcases List.mem_append.mp hentry with hentry | hentry
        · refine .registered (Hierarchy.contains_iff.mpr ⟨⟨name, some parent⟩, ?_, rfl⟩)
          rw [hround.entries]
          exact List.mem_append_left h.entries hentry
        · exact .declared hentry ih
    exact hkept (hall.grounded e (List.mem_append_right added he))

theorem Round.shorter {added : List Entry} (hround : Round h pending added waiting h')
    (hpending : h.Registrable (pending.map entryOf)) (hne : pending ≠ []) :
    waiting.length < pending.length := by
  apply hround.progress
  obtain ⟨d, hd⟩ := List.exists_mem_of_ne_nil pending hne
  have hmem : entryOf d ∈ pending.map entryOf := List.mem_map_of_mem hd
  rcases (hpending.grounded _ hmem).exists_ready with hnamed | ⟨e, he, p, hp, hready⟩
  · rw [hpending.fresh _ hmem] at hnamed
    cases hnamed
  · obtain ⟨d', hd', rfl⟩ := List.mem_map.mp he
    cases hp
    exact ⟨d', hd', hready⟩

/-- The types that rounds have registered, if there are enough rounds. -/
theorem registerRounds_ok {rounds : Nat} (hrounds : pending.length ≤ rounds)
    (hrun : registerRounds file rounds pending h = .ok () h') :
    ∃ added, h'.entries = added ++ h.entries ∧ added.Perm (pending.map entryOf) := by
  induction rounds generalizing pending h with
  | zero =>
    have hnil : pending = [] := List.length_eq_zero_iff.mp (by omega)
    subst hnil
    cases hrun
    exact ⟨[], rfl, .refl _⟩
  | succ rounds ih =>
    rw [registerRounds] at hrun
    obtain ⟨waiting, h₁, hready, hrun⟩ := bind_inv hrun
    obtain ⟨added, hround⟩ := registerReady_ok hready
    cases waiting with
    | nil =>
      cases hrun
      refine ⟨added, hround.entries, ?_⟩
      have hperm := hround.perm
      rwa [List.map_nil, List.append_nil] at hperm
    | cons d waiting =>
      by_cases hstuck : (d :: waiting).length = pending.length
      · simp only [hstuck, ↓reduceIte] at hrun
        cases hrun
      · simp only [hstuck, ↓reduceIte] at hrun
        have hlength := hround.length_eq
        obtain ⟨more, hentries, hperm⟩ := ih (by omega) hrun
        refine ⟨more ++ added, ?_, ?_⟩
        · rw [hentries, hround.entries, List.append_assoc]
        · exact (List.perm_append_comm.trans (hperm.append_left added)).trans hround.perm

theorem registerRounds_succeeds {rounds : Nat} (hrounds : pending.length ≤ rounds)
    (hpending : h.Registrable (pending.map entryOf)) :
    ∃ h', registerRounds file rounds pending h = .ok () h' := by
  induction rounds generalizing pending h with
  | zero => exact ⟨h, rfl⟩
  | succ rounds ih =>
    have hdistinct := hpending.distinct
    rw [List.map_map] at hdistinct
    have hfresh : ∀ d ∈ pending, h.contains d.name = false := fun d hd =>
      hpending.fresh _ (List.mem_map_of_mem hd)
    obtain ⟨waiting, h₁, hready⟩ := registerReady_succeeds file hdistinct hfresh
    obtain ⟨added, hround⟩ := registerReady_ok hready
    rw [registerRounds, bind_ok hready]
    cases waiting with
    | nil => exact ⟨h₁, rfl⟩
    | cons d waiting =>
      have hne : pending ≠ [] := by
        intro hnil
        have hlength := hround.length_eq
        rw [hnil, List.length_cons, List.length_nil] at hlength
        omega
      have hshorter := hround.shorter hpending hne
      have hstuck : (d :: waiting).length ≠ pending.length := by omega
      simp only [hstuck, ↓reduceIte]
      exact ih (by omega) (hround.registrable hpending)

/-- A table in which the types of a program are registered has their entries in front. -/
theorem registerExceptions_ok (hrun : registerExceptions file decls h = .ok () h') :
    ∃ added, h'.entries = added ++ h.entries ∧ added.Perm (decls.map entryOf) :=
  registerRounds_ok (Nat.le_refl _) hrun

/-- The types of a program are registered just in case this is possible in some order. -/
theorem registerExceptions_ok_iff (hordered : Ordered h.entries) :
    (∃ h', registerExceptions file decls h = .ok () h') ↔ h.Registrable (decls.map entryOf) := by
  constructor
  · rintro ⟨h', hrun⟩
    obtain ⟨added, hentries, hperm⟩ := registerExceptions_ok hrun
    have houtcome := registerExceptions_registers file decls h hordered
    rw [hrun] at houtcome
    cases houtcome with
    | ok _ hgrown =>
      have hall := hgrown.ordered
      rw [hentries] at hall
      obtain ⟨hdistinct, hnew⟩ := Hierarchy.ordered_append hall
      have hparents : ∀ e ∈ added, e.parent ≠ none := by
        intro e he
        obtain ⟨d, -, rfl⟩ := List.mem_map.mp (hperm.mem_iff.mp he)
        exact Option.some_ne_none _
      refine Hierarchy.Registrable.perm ⟨hdistinct, fun e he => ?_, ?_⟩ hperm
      · exact Bool.eq_false_iff.mpr fun hcontains => hnew e he (Hierarchy.contains_iff.mp hcontains)
      · exact Hierarchy.grounded_of_ordered hall hparents
  · exact registerRounds_succeeds (Nat.le_refl _)

end Typing

end CheckedExceptions
