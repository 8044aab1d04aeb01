import CheckedExceptions.Language.Parser
import CheckedExceptions.Proofs.Basic

/-!
A check that an automaton can follow every derivation. It looks at each item of each state once:
what can be read there is expected, a completed item is reduced on its lookaheads, advancing the dot
leads to a state that has the advanced item, and a state with the dot in front of a nonterminal has
the items of its productions. An automaton that passes is complete for its grammar, however it was
found; in particular no two items of a state ask for different actions on one terminal.
-/
namespace CheckedExceptions.Language

section Sets

theorem mem_allTerminals (t : Terminal) : t ∈ Automaton.allTerminals := by
  cases t with
  | mark m => simp [Automaton.allTerminals, Mark.mem_all]
  | word k => simp [Automaton.allTerminals, Keyword.mem_all]
  | _ => simp [Automaton.allTerminals]

theorem Terminal.code_injective {t u : Terminal} (h : t.code = u.code) : t = u := by
  have hall : ∀ t ∈ Automaton.allTerminals, ∀ u ∈ Automaton.allTerminals,
      t.code = u.code → t = u := by decide +kernel
  exact hall t (mem_allTerminals t) u (mem_allTerminals u) h

namespace TerminalSet

@[simp] theorem contains_single {t u : Terminal} : (single t).contains u = true ↔ t = u := by
  rw [single, contains, Nat.one_shiftLeft, Nat.testBit_two_pow, decide_eq_true_eq]
  exact ⟨Terminal.code_injective, congrArg Terminal.code⟩

/-- Every terminal of `a` is one of `b`. -/
def within (a b : TerminalSet) : Bool := a ||| b == b

theorem contains_of_within {a b : TerminalSet} (h : a.within b = true) {t : Terminal}
    (ht : a.contains t = true) : b.contains t = true := by
  rw [← (beq_iff_eq.mp h : a ||| b = b), contains, Nat.testBit_or]
  exact Bool.or_eq_true_iff.mpr (Or.inl ht)

end TerminalSet

end Sets

namespace Automaton

section Checks

variable (first : SetTable) (initials : List Item) (states : List State)

/-- The state has the item with this number, with this production and rest and at least these
lookaheads. -/
def offers (s : State) (number : Nat) (p : Production) (rest : List Symbol)
    (after : TerminalSet) : Bool :=
  (s.items.find? (·.1.number == number)).any fun (i, found) =>
    decide (i.production = p) && decide (i.rest = rest) && after.within found

/-- The state with number `target` has the item with its dot advanced. -/
def advances (target : Nat) (i : Item) (rest : List Symbol) (after : TerminalSet) : Bool :=
  states[target]?.any fun s => offers s (i.number + 1) i.production rest after

/-- What a state does about an item that it has. -/
def follows (s : State) (i : Item) (after : TerminalSet) : Bool :=
  match i.rest with
  | [] => allTerminals.all fun t =>
      !after.contains t || decide (s.action? t = some (.reduce i.production))
  | .terminal t :: rest =>
    if t = .endOfText then s.action? t = some .accept
    else
      match s.action? t with
      | some (.shift target) => advances states target i rest after
      | _ => false
  | .nonTerminal n :: rest =>
    (s.goto? n).any (fun target => advances states target i rest after) &&
      initials.all fun j => j.production.lhs != n ||
        offers s j.number j.production j.rest (leading first after rest)

def followsAll : Bool :=
  states.all fun s => s.items.all fun (i, after) =>
    (leading first after i.rest).within s.expected && follows first initials states s i after

end Checks

/-- The whole check: the table of first terminals is closed under all productions, the first state
has the first production with the end of the text behind it, and all items are followed. -/
def certifies (g : List Production) (states : List State) : Bool :=
  let first := firstSets g
  let initials := Item.initials g
  (g.all fun p => (leading first 0 p.rhs).within (first.get p.lhs.ctorIdx)) &&
    (initials.head?.any fun i => states.head?.any fun s =>
      offers s i.number i.production i.rest (.single .endOfText)) &&
    followsAll first initials states

/-- The state has the production `p` with the dot in front of `rest` and looks ahead for it to `t`. -/
def Holds (s : State) (p : Production) (rest : List Symbol) (t : Terminal) : Prop :=
  ∃ x ∈ s.items, x.1.production = p ∧ x.1.rest = rest ∧ x.2.contains t = true

/-- The terminals that can begin `rest` with `t` behind it. -/
def Leads (first : SetTable) (t : Terminal) (rest : List Symbol) (u : Terminal) : Prop :=
  (leading first (.single t) rest).contains u = true

/-- What the check says about an automaton. -/
structure Complete (g : List Production) (first : SetTable) (states : Array State) : Prop where
  begins : ∀ {p}, p ∈ g → ∀ {t}, (leading first 0 p.rhs).contains t = true →
    (first.get p.lhs.ctorIdx).contains t = true
  initial : ∃ p s, g.head? = some p ∧ states[0]? = some s ∧ Holds s p p.rhs .endOfText
  expected : ∀ {s p rest t u}, s ∈ states → Holds s p rest t → Leads first t rest u →
    s.expected.contains u = true
  reduce : ∀ {s p t}, s ∈ states → Holds s p [] t → s.action? t = some (.reduce p)
  accept : ∀ {s p rest t}, s ∈ states → Holds s p (.terminal .endOfText :: rest) t →
    s.action? .endOfText = some .accept
  shift : ∀ {s p u rest t}, s ∈ states → Holds s p (.terminal u :: rest) t → u ≠ .endOfText →
    ∃ target s', s.action? u = some (.shift target) ∧ states[target]? = some s' ∧ Holds s' p rest t
  goto : ∀ {s p n rest t}, s ∈ states → Holds s p (.nonTerminal n :: rest) t →
    ∃ target s', s.goto? n = some target ∧ states[target]? = some s' ∧ Holds s' p rest t
  close : ∀ {s p n rest t}, s ∈ states → Holds s p (.nonTerminal n :: rest) t →
    ∀ {q}, q ∈ g → q.lhs = n → ∀ {u}, Leads first t rest u → Holds s q q.rhs u

theorem leading_of_leads {first : SetTable} {after : TerminalSet} {t u : Terminal}
    {rest : List Symbol} (hafter : after.contains t = true) (h : Leads first t rest u) :
    (leading first after rest).contains u = true := by
  cases rest with
  | nil =>
    rw [← TerminalSet.contains_single.mp h]
    exact hafter
  | cons x rest =>
    cases x with
    | terminal v => exact h
    | nonTerminal n => exact h

theorem holds_of_offers {s : State} {number : Nat} {p : Production} {rest : List Symbol}
    {after : TerminalSet} (h : offers s number p rest after = true) {t : Terminal}
    (ht : after.contains t = true) : Holds s p rest t := by
  obtain ⟨⟨i, found⟩, hfind, hok⟩ := (Option.any_eq_true _ _).mp h
  simp only [Bool.and_eq_true, decide_eq_true_eq] at hok
  exact ⟨(i, found), List.mem_of_find?_eq_some hfind, hok.1.1, hok.1.2,
    TerminalSet.contains_of_within hok.2 ht⟩

section Soundness

variable {g : List Production} {first : SetTable} {initials : List Item} {states : List State}

theorem holds_of_advances {target : Nat} {i : Item} {rest : List Symbol} {after : TerminalSet}
    (h : advances states target i rest after = true) {t : Terminal}
    (ht : after.contains t = true) :
    ∃ s', states.toArray[target]? = some s' ∧ Holds s' i.production rest t := by
  obtain ⟨s', hs', hoffers⟩ := (Option.any_eq_true _ _).mp h
  exact ⟨s', by simpa using hs', holds_of_offers hoffers ht⟩

theorem mem_initials {p : Production} (hp : p ∈ g) :
    ∃ j ∈ Item.initials g, j.production = p ∧ j.rest = p.rhs := by
  obtain ⟨k, hk, rfl⟩ := List.mem_iff_getElem.mp hp
  exact ⟨_, List.mem_map.mpr ⟨(g[k], k), List.mk_mem_zipIdx_iff_getElem?.mpr (by simp [hk]), rfl⟩,
    rfl, rfl⟩

/-- An item that a state has, and what the check says about it. -/
theorem followed_of_holds (hall : followsAll first initials states = true) {s : State}
    (hs : s ∈ states) {p : Production} {rest : List Symbol} {t : Terminal} (h : Holds s p rest t) :
    ∃ i after, i.production = p ∧ i.rest = rest ∧ after.contains t = true ∧
      (leading first after rest).within s.expected = true ∧
      follows first initials states s i after = true := by
  obtain ⟨⟨i, after⟩, hx, rfl, rfl, ht⟩ := h
  have hitems := List.all_eq_true.mp (List.all_eq_true.mp hall s hs) _ hx
  obtain ⟨hexpected, hfollows⟩ := Bool.and_eq_true_iff.mp hitems
  exact ⟨i, after, rfl, rfl, ht, hexpected, hfollows⟩

theorem complete_of_certifies (h : certifies g states = true) :
    Complete g (firstSets g) states.toArray := by
  simp only [certifies, Bool.and_eq_true] at h
  obtain ⟨⟨hfirst, hinitial⟩, hall⟩ := h
  have hitem := fun {s} (hs : s ∈ states.toArray) {p rest t} (hholds : Holds s p rest t) =>
    followed_of_holds hall (List.mem_toArray.mp hs) hholds
  constructor
  case begins =>
    intro p hp t ht
    exact TerminalSet.contains_of_within (List.all_eq_true.mp hfirst p hp) ht
  case initial =>
    obtain ⟨i, hi, hstate⟩ := (Option.any_eq_true _ _).mp hinitial
    obtain ⟨s, hs, hoffers⟩ := (Option.any_eq_true _ _).mp hstate
    have hholds := holds_of_offers hoffers (TerminalSet.contains_single.mpr rfl)
    cases g with
    | nil => cases hi
    | cons p g =>
      cases hi
      refine ⟨p, s, rfl, ?_, hholds⟩
      rw [List.getElem?_toArray, ← List.head?_eq_getElem?, hs]
  case expected =>
    intro s p rest t u hs hholds hu
    obtain ⟨i, after, -, -, ht, hexpected, -⟩ := hitem hs hholds
    exact TerminalSet.contains_of_within hexpected (leading_of_leads ht hu)
  case reduce =>
    intro s p t hs hholds
    obtain ⟨i, after, rfl, hrest, ht, -, hfollows⟩ := hitem hs hholds
    rw [follows, hrest] at hfollows
    simpa [ht] using List.all_eq_true.mp hfollows t (mem_allTerminals t)
  case accept =>
    intro s p rest t hs hholds
    obtain ⟨i, after, -, hrest, -, -, hfollows⟩ := hitem hs hholds
    rw [follows, hrest] at hfollows
    simpa using hfollows
  case shift =>
    intro s p u rest t hs hholds hu
    obtain ⟨i, after, rfl, hrest, ht, -, hfollows⟩ := hitem hs hholds
    rw [follows, hrest] at hfollows
    simp only [hu, ↓reduceIte] at hfollows
    split at hfollows
    · rename_i target haction
      obtain ⟨s', hs', hholds'⟩ := holds_of_advances hfollows ht
      exact ⟨target, s', haction, hs', hholds'⟩
    · cases hfollows
  case goto =>
    intro s p n rest t hs hholds
    obtain ⟨i, after, rfl, hrest, ht, -, hfollows⟩ := hitem hs hholds
    rw [follows, hrest] at hfollows
    obtain ⟨hgoto, -⟩ := Bool.and_eq_true_iff.mp hfollows
    obtain ⟨target, htarget, hadvances⟩ := (Option.any_eq_true _ _).mp hgoto
    obtain ⟨s', hs', hholds'⟩ := holds_of_advances hadvances ht
    exact ⟨target, s', htarget, hs', hholds'⟩
  case close =>
    rintro s p n rest t hs hholds q hq rfl u hu
    obtain ⟨i, after, -, hrest, ht, -, hfollows⟩ := hitem hs hholds
    rw [follows, hrest] at hfollows
    obtain ⟨-, hclose⟩ := Bool.and_eq_true_iff.mp hfollows
    obtain ⟨j, hj, rfl, hrhs⟩ := mem_initials hq
    have hoffers := List.all_eq_true.mp hclose j hj
    rw [bne_self_eq_false, Bool.false_or] at hoffers
    rw [← hrhs]
    exact holds_of_offers hoffers (leading_of_leads ht hu)

end Soundness

theorem certifies_build : certifies Grammar.productions (build Grammar.productions) = true := by
  decide +kernel

/-- The automaton of the source language is complete. -/
theorem complete_states : Complete Grammar.productions (firstSets Grammar.productions) states :=
  complete_of_certifies certifies_build

end Automaton

end CheckedExceptions.Language
