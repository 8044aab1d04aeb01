import CheckedExceptions.Overrides
import Mathlib.Data.List.Basic

/-!
The table of overridden symbols as it is filled. Rows are found by the identity of a symbol; adding
a pair changes the row of its first symbol only, and there puts the second one at the end unless it
is known already.
-/
namespace CheckedExceptions.Overrides

variable {o : Overrides} {m m' parent : Symbol}

theorem overridden_congr (h : m.identity = m'.identity) : o.overridden m = o.overridden m' := by
  rw [overridden, overridden, h]

theorem overridden_put (m : Symbol) (parents : List Symbol) (rows : List (Symbol × List Symbol))
    (m' : Symbol) :
    overridden ⟨put m parents rows⟩ m' =
      if m.identity = m'.identity then parents else overridden ⟨rows⟩ m' := by
  induction rows with
  | nil =>
    by_cases hm : m.identity = m'.identity
    · simp [put, overridden, hm]
    · simp [put, overridden, hm]
  | cons row rows ih =>
    rw [put]
    by_cases hrow : row.1.identity = m.identity
    · rw [if_pos hrow]
      by_cases hm : m.identity = m'.identity
      · simp [overridden, hrow, hm]
      · simp [overridden, hrow, hm]
    · rw [if_neg hrow]
      by_cases hrow' : row.1.identity = m'.identity
      · have hm : m.identity ≠ m'.identity := fun hm => hrow (hrow'.trans hm.symm)
        simp [overridden, hrow', hm]
      · simpa [overridden, hrow'] using ih

theorem overridden_add_same (h : m.identity = m'.identity)
    (hnew : parent.identity ∉ (o.overridden m').map Symbol.identity) :
    (o.add m parent).overridden m' = o.overridden m' ++ [parent] := by
  have hany : (o.overridden m).any (·.identity = parent.identity) = false := by
    rw [overridden_congr h, List.any_eq_false]
    intro x hx heq
    exact hnew (List.mem_map.mpr ⟨x, hx, by simpa using heq⟩)
  simp only [add, hany, Bool.false_eq_true, ↓reduceIte]
  rw [overridden_put, if_pos h, overridden_congr h]

theorem overridden_add_other (h : m.identity ≠ m'.identity) :
    (o.add m parent).overridden m' = o.overridden m' := by
  simp only [add]
  split
  · rfl
  · rw [overridden_put, if_neg h]

theorem mem_overridden_add {x : Symbol} (h : x ∈ (o.add m parent).overridden m') :
    x ∈ o.overridden m' ∨ x = parent := by
  simp only [add] at h
  split at h
  · exact Or.inl h
  · rw [overridden_put] at h
    by_cases hm : m.identity = m'.identity
    · rw [if_pos hm, overridden_congr hm, List.mem_append, List.mem_singleton] at h
      exact h
    · rw [if_neg hm] at h
      exact Or.inl h

/-- Whatever a table holds was there before it was filled, or is the second symbol of a pair. -/
theorem mem_overridden_foldl_add {pairs : List (Symbol × Symbol)} {x : Symbol}
    (h : x ∈ (pairs.foldl (fun (o : Overrides) (m, overridden) => o.add m overridden) o).overridden
      m) :
    x ∈ o.overridden m ∨ x ∈ pairs.map Prod.snd := by
  induction pairs generalizing o with
  | nil => exact Or.inl h
  | cons pair pairs ih =>
    rw [List.map_cons, List.mem_cons]
    rcases ih h with h | h
    · exact (mem_overridden_add h).imp_right Or.inl
    · exact Or.inr (Or.inr h)

/-- What pairs of a symbol and an overridden one say about a symbol. -/
def linked (m : Symbol) (pairs : List (Symbol × Symbol)) : List Symbol :=
  (pairs.filter (·.1.identity = m.identity)).map Prod.snd

/-- Pairs with the same first symbol all say something about that symbol. -/
theorem linked_map {α : Type} (m first : Symbol) (l : List α) (f : α → Symbol) :
    linked m (l.map fun a => (first, f a)) =
      if first.identity = m.identity then l.map f else [] := by
  by_cases hfirst : first.identity = m.identity
  · simp [linked, List.filter_map, Function.comp_def, hfirst]
  · simp [linked, List.filter_map, Function.comp_def, hfirst]

theorem linked_flatMap {α : Type} (m : Symbol) (l : List α) (f : α → List (Symbol × Symbol)) :
    linked m (l.flatMap f) = l.flatMap fun a => linked m (f a) := by
  simp [linked, List.filter_flatMap, List.map_flatMap]

/-- A table that is filled pair by pair holds for a symbol what the pairs say, in order, if they say
nothing twice. -/
theorem overridden_foldl_add (pairs : List (Symbol × Symbol)) (o : Overrides) (m : Symbol)
    (h : ((o.overridden m ++ linked m pairs).map Symbol.identity).Nodup) :
    (pairs.foldl (fun (o : Overrides) (m, overridden) => o.add m overridden) o).overridden m =
      o.overridden m ++ linked m pairs := by
  induction pairs generalizing o with
  | nil => exact (List.append_nil _).symm
  | cons pair pairs ih =>
    obtain ⟨first, parent⟩ := pair
    rw [List.foldl_cons]
    by_cases hfirst : first.identity = m.identity
    · have hlinked : linked m ((first, parent) :: pairs) = parent :: linked m pairs := by
        simp [linked, hfirst]
      rw [hlinked] at h ⊢
      have hnew : parent.identity ∉ (o.overridden m).map Symbol.identity := by
        rw [List.map_append, List.map_cons, List.nodup_append] at h
        exact fun hmem => h.2.2 _ hmem _ List.mem_cons_self rfl
      have hadd := overridden_add_same hfirst hnew
      rw [ih (o.add first parent) (by simpa [hadd] using h), hadd, List.append_assoc]
      rfl
    · have hlinked : linked m ((first, parent) :: pairs) = linked m pairs := by
        simp [linked, hfirst]
      have hadd : (o.add first parent).overridden m = o.overridden m := overridden_add_other hfirst
      rw [hlinked] at h ⊢
      rw [ih (o.add first parent) (hadd ▸ h), hadd]

/-- Every row says something about its symbol. -/
def Filled (o : Overrides) : Prop := ∀ row ∈ o.rows, row.2 ≠ []

theorem mem_put {rows : List (Symbol × List Symbol)} {parents : List Symbol}
    {row : Symbol × List Symbol} (h : row ∈ put m parents rows) : row ∈ rows ∨ row.2 = parents := by
  induction rows with
  | nil => exact Or.inr (congrArg Prod.snd (List.mem_singleton.mp h))
  | cons first rows ih =>
    rw [put] at h
    split at h
    · rcases List.mem_cons.mp h with rfl | h
      · exact Or.inr rfl
      · exact Or.inl (List.mem_cons_of_mem first h)
    · rcases List.mem_cons.mp h with rfl | h
      · exact Or.inl List.mem_cons_self
      · exact (ih h).imp_left (List.mem_cons_of_mem first)

theorem Filled.add (h : o.Filled) (m parent : Symbol) : (o.add m parent).Filled := by
  simp only [Overrides.add]
  split
  · exact h
  · intro row hrow
    rcases mem_put hrow with hrow | hrow
    · exact h row hrow
    · rw [hrow]
      exact List.append_ne_nil_of_right_ne_nil _ (List.cons_ne_nil _ _)

theorem Filled.foldl_add (h : o.Filled) (pairs : List (Symbol × Symbol)) :
    (pairs.foldl (fun (o : Overrides) (m, overridden) => o.add m overridden) o).Filled := by
  induction pairs generalizing o with
  | nil => exact h
  | cons pair pairs ih => exact ih (h.add pair.1 pair.2)

theorem Filled.exists_row_iff (h : o.Filled) :
    (∃ row ∈ o.rows, row.1.identity = m.identity) ↔ o.overridden m ≠ [] := by
  unfold overridden
  cases hfind : o.rows.find? (·.1.identity = m.identity) with
  | none =>
    simp only [List.find?_eq_none, decide_eq_true_eq] at hfind
    simpa using hfind
  | some row =>
    have hmem := List.mem_of_find?_eq_some hfind
    refine iff_of_true ⟨row, hmem, by simpa using List.find?_some hfind⟩ (h row hmem)

end CheckedExceptions.Overrides
