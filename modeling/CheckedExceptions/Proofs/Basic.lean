import Mathlib.Data.List.Nodup

/-!
Facts about lists, and about results and actions with a state, that several parts of the theory use.
-/
namespace CheckedExceptions

/-- What is found in an association list is in it. -/
theorem mem_of_lookup {α β : Type} [BEq α] [LawfulBEq α] {a : α} {b : β} {l : List (α × β)}
    (h : l.lookup a = some b) : (a, b) ∈ l := by
  obtain ⟨before, after, hsplit, -⟩ := List.lookup_eq_some_iff.mp h
  rw [hsplit]
  exact List.mem_append_right before List.mem_cons_self

/-- In a list without duplicate keys, each element is found by its key. -/
theorem lookup_of_mem {α β : Type} [BEq α] [LawfulBEq α] {l : List (α × β)}
    (hnodup : (l.map (·.1)).Nodup) {a : α} {b : β} (h : (a, b) ∈ l) : l.lookup a = some b := by
  induction l with
  | nil => cases h
  | cons entry l ih =>
    obtain ⟨hfresh, hnodup⟩ := List.nodup_cons.mp hnodup
    rcases List.mem_cons.mp h with rfl | h
    · exact List.lookup_cons_self
    · have hne : (a == entry.1) = false := by
        apply beq_false_of_ne
        rintro rfl
        exact hfresh (List.mem_map.mpr ⟨(entry.1, b), h, rfl⟩)
      rw [List.lookup_cons, hne]
      exact ih hnodup h

section Keys

variable {α γ : Type} [DecidableEq γ] (key : α → γ) {l l' : List α}

/-- In a list without duplicate keys, a key leads to the one element that has it. -/
theorem find?_key_eq_some (hnodup : (l.map key).Nodup) {k : γ} {a : α} :
    l.find? (key · = k) = some a ↔ a ∈ l ∧ key a = k := by
  constructor
  · intro h
    exact ⟨List.mem_of_find?_eq_some h, by simpa using List.find?_some h⟩
  · rintro ⟨ha, hk⟩
    cases hfind : l.find? (key · = k) with
    | none => exact absurd (decide_eq_true hk) (List.find?_eq_none.mp hfind a ha)
    | some b =>
      have hb : key b = k := by simpa using List.find?_some hfind
      rw [List.inj_on_of_nodup_map hnodup (List.mem_of_find?_eq_some hfind) ha (hb.trans hk.symm)]

theorem find?_key_perm (hperm : l.Perm l') (hnodup : (l.map key).Nodup) (k : γ) :
    l.find? (key · = k) = l'.find? (key · = k) := by
  ext a
  rw [find?_key_eq_some key hnodup, find?_key_eq_some key ((hperm.map key).nodup_iff.mp hnodup),
    hperm.mem_iff]

/-- What is found by a key is found in the same way in a view of the elements that keeps the key. -/
theorem find?_key_map (view : α → α) (hkey : ∀ a, key (view a) = key a) (l : List α) (k : γ) :
    (l.find? (key · = k)).map view = (l.map view).find? (key · = k) := by
  rw [List.find?_map]
  simp only [Function.comp_def, hkey]

end Keys

theorem mapM_eq_some {α β : Type} {f : α → Option β} {l : List α} {bs : List β} :
    l.mapM f = some bs ↔ l.map f = bs.map some := by
  induction l generalizing bs with
  | nil =>
    cases bs with
    | nil => exact Iff.intro (fun _ => rfl) fun _ => rfl
    | cons b bs => simp
  | cons a l ih =>
    rw [List.mapM_cons, List.map_cons]
    cases f a with
    | none =>
      cases bs with
      | nil => simp
      | cons b bs => simp
    | some b' =>
      cases bs with
      | nil => simp [Option.bind_eq_some_iff]
      | cons b bs => simp [Option.bind_eq_some_iff, ih, and_comm]

/-- A sequence has a result only if its first part has. -/
theorem ok_of_bind {ε α β : Type} {x : Except ε α} {f : α → Except ε β} {b : β}
    (h : x >>= f = .ok b) : ∃ a, x = .ok a ∧ f a = .ok b := by
  cases x with
  | error e => cases h
  | ok a => exact ⟨a, rfl, h⟩

theorem bind_of_ok {ε α β : Type} {x : Except ε α} {a : α} (h : x = .ok a)
    (f : α → Except ε β) : x >>= f = f a := by
  rw [h]
  rfl

section Actions

variable {ε σ α β : Type} {x : EStateM ε σ α} {f : α → EStateM ε σ β} {s s' : σ}

theorem bind_ok {a : α} (h : x s = .ok a s') : (x >>= f) s = f a s' := by
  change EStateM.bind x f s = f a s'
  simp only [EStateM.bind, h]

theorem bind_error {e : ε} (h : x s = .error e s') : (x >>= f) s = .error e s' := by
  change EStateM.bind x f s = .error e s'
  simp only [EStateM.bind, h]

theorem bind_inv {b : β} (h : (x >>= f) s = .ok b s') :
    ∃ a s₁, x s = .ok a s₁ ∧ f a s₁ = .ok b s' := by
  cases hx : x s with
  | ok a s₁ =>
    rw [bind_ok hx] at h
    exact ⟨a, s₁, rfl, h⟩
  | error e s₁ =>
    rw [bind_error hx] at h
    cases h

end Actions

end CheckedExceptions
