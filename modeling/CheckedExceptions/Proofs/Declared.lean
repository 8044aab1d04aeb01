import CheckedExceptions.Flow
import CheckedExceptions.Proofs.Basic

/-!
What a declaration says, apart from the memory of earlier readings. The memory is keyed by the
identities of symbols, which leave out where a marker was written, and a reading shows of a bad
marker only its text, which does not depend on that place either. So a remembered reading can stand
for a fresh one wherever it is used.
-/
namespace CheckedExceptions

/-- A marker of the symbol declares the type. -/
def Symbol.Declares (m : Symbol) (t : ExceptionType) : Prop :=
  ∃ k ∈ m.markers, k.isThrows = true ∧ k.declared? = some t

namespace Declared

/-- What can be seen of a reading: the types, or the text of the first bad marker. -/
def shown (reading : Reading) : Except String (List ExceptionType) := reading.mapError Marker.text

/-- What the symbols declare at a place of use, read anew. -/
def declaration (symbols : List Symbol) (span : Span) (owner : String) :
    Except Finding (List ExceptionType) :=
  (read symbols).mapError fun m => .invalidDeclaration span m.text owner

theorem declaration_eq_ok {symbols : List Symbol} {types : List ExceptionType}
    (h : read symbols = .ok types) (span : Span) (owner : String) :
    declaration symbols span owner = .ok types := by
  rw [declaration, h]
  rfl

theorem shown_ok (types : List ExceptionType) : shown (.ok types) = .ok types := rfl

theorem shown_error (m : Marker) : shown (.error m) = .error m.text := rfl

theorem shown_map_cons (t : ExceptionType) (reading : Reading) :
    shown (reading.map (t :: ·)) = (shown reading).map (t :: ·) := by
  cases reading <;> rfl

/-- A finding about a reading depends only on what is shown of it. -/
theorem mapError_eq_of_shown_eq {a b : Reading} (h : shown a = shown b) (span : Span)
    (owner : String) :
    a.mapError (fun m => Finding.invalidDeclaration span m.text owner) =
      b.mapError fun m => Finding.invalidDeclaration span m.text owner := by
  cases a with
  | ok types =>
    cases b with
    | ok types' => rw [Except.ok.inj h]
    | error m => exact absurd h (by simp [shown_ok, shown_error])
  | error m =>
    cases b with
    | ok types => exact absurd h (by simp [shown_ok, shown_error])
    | error m' =>
      have htext : m.text = m'.text := Except.error.inj h
      change Except.error (Finding.invalidDeclaration span m.text owner) = _
      rw [htext]
      rfl

theorem text_eq_of_form_eq {m m' : Marker} (h : m.form = m'.form) : m.text = m'.text := by
  simp only [Marker.text, h]

theorem isThrows_eq_of_form_eq {m m' : Marker} (h : m.form = m'.form) :
    m.isThrows = m'.isThrows := by
  unfold Marker.isThrows Marker.name
  rw [h]

theorem declared?_eq_of_form_eq {m m' : Marker} (h : m.form = m'.form) :
    m.declared? = m'.declared? := by
  simp only [Marker.declared?, h]

/-- Markers that say the same are read the same, wherever they were written. -/
theorem shown_readMarkers_eq (ms ms' : List Marker) (h : ms.map (·.form) = ms'.map (·.form)) :
    shown (readMarkers ms) = shown (readMarkers ms') := by
  induction ms generalizing ms' with
  | nil =>
    cases ms' with
    | nil => rfl
    | cons m' rest' => simp at h
  | cons m rest ih =>
    cases ms' with
    | nil => simp at h
    | cons m' rest' =>
      simp only [List.map_cons, List.cons.injEq] at h
      obtain ⟨hform, hrest⟩ := h
      simp only [readMarkers, isThrows_eq_of_form_eq hform, declared?_eq_of_form_eq hform]
      split
      · cases m'.declared? with
        | none => simp only [shown_error, text_eq_of_form_eq hform]
        | some t => simp only [shown_map_cons, ih rest' hrest]
      · exact ih rest' hrest

theorem forms_eq_of_identities_eq (symbols symbols' : List Symbol)
    (h : symbols.map Symbol.identity = symbols'.map Symbol.identity) :
    (symbols.flatMap (·.markers)).map (·.form) = (symbols'.flatMap (·.markers)).map (·.form) := by
  have hforms : ∀ ss : List Symbol, (ss.flatMap (·.markers)).map (·.form) =
      (ss.map Symbol.identity).flatMap (·.markers) := by
    intro ss
    simp only [List.map_flatMap, List.flatMap_map, Symbol.identity]
  rw [hforms, hforms, h]

/-- Symbols with the same identities have the same declaration. -/
theorem shown_read_eq (symbols symbols' : List Symbol)
    (h : symbols.map Symbol.identity = symbols'.map Symbol.identity) :
    shown (read symbols) = shown (read symbols') :=
  shown_readMarkers_eq _ _ (forms_eq_of_identities_eq symbols symbols' h)

section Members

variable {symbols : List Symbol} {types : List ExceptionType} {t : ExceptionType}

theorem mem_readMarkers {ms : List Marker} (h : readMarkers ms = .ok types) :
    t ∈ types ↔ ∃ k ∈ ms, k.isThrows = true ∧ k.declared? = some t := by
  induction ms generalizing types with
  | nil =>
    cases h
    simp
  | cons k ms ih =>
    rw [readMarkers] at h
    by_cases hthrows : k.isThrows = true
    · rw [if_pos hthrows] at h
      cases hdeclared : k.declared? with
      | none =>
        rw [hdeclared] at h
        cases h
      | some u =>
        rw [hdeclared] at h
        cases hrest : readMarkers ms with
        | error bad =>
          rw [hrest] at h
          cases h
        | ok rest =>
          rw [hrest] at h
          cases h
          rw [List.mem_cons, ih hrest]
          constructor
          · rintro (rfl | ⟨k', hk', hdeclares⟩)
            · exact ⟨k, List.mem_cons_self, hthrows, hdeclared⟩
            · exact ⟨k', List.mem_cons_of_mem k hk', hdeclares⟩
          · rintro ⟨k', hk', hthrows', hdeclared'⟩
            rcases List.mem_cons.mp hk' with rfl | hk'
            · rw [hdeclared] at hdeclared'
              exact Or.inl (Option.some.inj hdeclared').symm
            · exact Or.inr ⟨k', hk', hthrows', hdeclared'⟩
    · rw [if_neg hthrows] at h
      rw [ih h]
      simp [hthrows]

/-- What can be read off some symbols is what one of them declares. -/
theorem mem_read (h : read symbols = .ok types) : t ∈ types ↔ ∃ m ∈ symbols, m.Declares t := by
  rw [mem_readMarkers h]
  constructor
  · rintro ⟨k, hk, hdeclares⟩
    obtain ⟨m, hm, hkm⟩ := List.mem_flatMap.mp hk
    exact ⟨m, hm, k, hkm, hdeclares⟩
  · rintro ⟨m, hm, k, hkm, hdeclares⟩
    exact ⟨k, List.mem_flatMap.mpr ⟨m, hm, hkm⟩, hdeclares⟩

theorem read_of_declaration {span : Span} {owner : String}
    (h : declaration symbols span owner = .ok types) : read symbols = .ok types := by
  unfold declaration at h
  cases hread : read symbols with
  | error m =>
    rw [hread] at h
    cases h
  | ok types' =>
    rw [hread] at h
    cases h
    rfl

end Members

end Declared

namespace Readings

open Declared

/-- Every remembered reading shows what a fresh reading of any symbols with that key shows. -/
def Faithful (r : Readings) : Prop :=
  ∀ key reading, (key, reading) ∈ r.known →
    ∀ symbols : List Symbol, symbols.map Symbol.identity = key →
      shown reading = shown (read symbols)

theorem faithful_empty : Faithful {} := by
  intro key reading h
  simp at h

theorem faithful_cons {r : Readings} (hr : r.Faithful) (symbols : List Symbol) :
    Faithful ⟨(symbols.map Symbol.identity, read symbols) :: r.known⟩ := by
  intro key reading hmem symbols' hkey
  rcases List.mem_cons.mp hmem with heq | hold
  · obtain ⟨rfl, rfl⟩ := Prod.mk.inj heq
    exact shown_read_eq symbols symbols' hkey.symm
  · exact hr key reading hold symbols' hkey

/-- Consulting the memory shows what a fresh reading shows, and keeps the memory faithful. -/
theorem consult_faithful {r : Readings} (hr : r.Faithful) (symbols : List Symbol) :
    shown (r.consult symbols).1 = shown (read symbols) ∧ (r.consult symbols).2.Faithful := by
  cases hlookup : r.known.lookup (symbols.map Symbol.identity) with
  | some reading =>
    have hmem := mem_of_lookup hlookup
    simp only [consult, hlookup]
    exact ⟨hr _ reading hmem symbols rfl, hr⟩
  | none =>
    simp only [consult, hlookup]
    exact ⟨trivial, faithful_cons hr symbols⟩

/-- The memory never changes an answer. -/
theorem declaredBy_faithful {r : Readings} (hr : r.Faithful) (symbols : List Symbol) (span : Span)
    (owner : String) :
    (r.declaredBy symbols span owner).1 = declaration symbols span owner ∧
      (r.declaredBy symbols span owner).2.Faithful := by
  obtain ⟨hshown, hfaithful⟩ := consult_faithful hr symbols
  exact ⟨mapError_eq_of_shown_eq hshown span owner, hfaithful⟩

end Readings

end CheckedExceptions
