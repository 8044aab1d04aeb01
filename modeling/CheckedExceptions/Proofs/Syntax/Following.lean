import CheckedExceptions.Proofs.Syntax.Certificate
import CheckedExceptions.Proofs.Syntax.Shape
import CheckedExceptions.Proofs.Syntax.Unplaced

/-!
The machine follows every derivation. Where the top state has an item with the symbol of a
derivation behind its dot, and the tokens of the derivation are read next, the machine puts that
derivation on the stack, without regard to places, and enters a state with the advanced item. By
induction on derivations this takes two steps for each token and one for each node, so that a whole
text is accepted if there are enough steps.
-/
namespace CheckedExceptions.Language

section Beginnings

/-- A symbol that stands inside a whole text: not the text itself, and not its end. -/
def Symbol.Inner (s : Symbol) : Prop :=
  s ≠ .nonTerminal .root ∧ s ≠ .nonTerminal .start ∧ s ≠ .terminal .endOfText

instance (s : Symbol) : Decidable s.Inner :=
  inferInstanceAs (Decidable (_ ∧ _ ∧ _))

theorem inner_of_mem_rhs :
    ∀ p ∈ Grammar.productions, p.lhs ≠ .root → ∀ s ∈ p.rhs, s.Inner := by
  decide +kernel

theorem inner_of_child {p : Production} {children : List Derivation}
    (hproduction : p ∈ Grammar.productions) (hsymbols : children.map Derivation.symbol = p.rhs)
    (hlhs : p.lhs ≠ .root) {d : Derivation} (hd : d ∈ children) : d.symbol.Inner := by
  refine inner_of_mem_rhs p hproduction hlhs _ ?_
  rw [← hsymbols]
  exact List.mem_map_of_mem hd

open Automaton

/-- Only the first symbol matters for what begins a text, if there is one. -/
theorem leads_cons {first : SetTable} {t u : Terminal} {s : Symbol} {rest rest' : List Symbol}
    {after : TerminalSet} (h : Leads first t (s :: rest) u) :
    (leading first after (s :: rest')).contains u = true := by
  cases s <;> exact h

/-- An inner derivation has a first token, which its symbol can begin with. -/
theorem exists_first_token {first : SetTable} {states : Array State}
    (hcomplete : Complete Grammar.productions first states) {d : Derivation}
    (hd : Derives Grammar.productions d) (hinner : d.symbol.Inner) (t : Terminal)
    (rest : List Symbol) :
    ∃ u us, d.tokens = u :: us ∧ Leads first t (d.symbol :: rest) u.terminal := by
  induction hd with
  | leaf x => exact ⟨x, [], rfl, TerminalSet.contains_single.mpr rfl⟩
  | @node p children hproduction hsymbols hchildren ih =>
    have hroot : p.lhs ≠ .root := fun heq => hinner.1 (congrArg Symbol.nonTerminal heq)
    have hstart : p.lhs ≠ .start := fun heq => hinner.2.1 (congrArg Symbol.nonTerminal heq)
    obtain ⟨s, hs, -⟩ := exists_symbol_ne_start p hproduction hstart
    cases children with
    | nil =>
      rw [← hsymbols] at hs
      cases hs
    | cons c cs =>
      have hc := List.mem_cons_self (a := c) (l := cs)
      obtain ⟨u, us, htokens, hleads⟩ := ih c hc (inner_of_child hproduction hsymbols hroot hc)
      refine ⟨u, us ++ Derivation.tokensAll cs, ?_, ?_⟩
      · rw [Derivation.tokens, Derivation.tokensAll, htokens, List.cons_append]
      · refine hcomplete.begins hproduction ?_
        rw [← hsymbols]
        exact leads_cons hleads

/-- What is read next, in front of `rest`, when several inner derivations come first. -/
theorem exists_leading_token {first : SetTable} {states : Array State}
    (hcomplete : Complete Grammar.productions first states) {ds : List Derivation}
    (hds : ∀ d ∈ ds, Derives Grammar.productions d ∧ d.symbol.Inner) {t : Terminal}
    {rest : List Symbol} {w : Token} (hw : Leads first t rest w.terminal) (ts : List Token) :
    ∃ u us, Derivation.tokensAll ds ++ w :: ts = u :: us ∧
      Leads first t (ds.map Derivation.symbol ++ rest) u.terminal := by
  cases ds with
  | nil => exact ⟨w, ts, rfl, hw⟩
  | cons d ds =>
    obtain ⟨hd, hinner⟩ := hds d List.mem_cons_self
    obtain ⟨u, us, htokens, hleads⟩ := exists_first_token hcomplete hd hinner t
      (ds.map Derivation.symbol ++ rest)
    refine ⟨u, us ++ Derivation.tokensAll ds ++ w :: ts, ?_, hleads⟩
    rw [Derivation.tokensAll, htokens, List.cons_append, List.cons_append]

end Beginnings

/-- Without regard to places, these tokens are read one after the other, each of them under every
set of terminals that allows it. -/
inductive Remaining.Offers : Remaining → List Token → Prop
  | nil (r : Remaining) : Offers r []
  | cons {r r' : Remaining} {t t' : Token} {ts : List Token}
      (hnext : ∀ allowed : TerminalSet, allowed.contains t.terminal = true →
        r.next allowed = .ok (t', r'))
      (hplaced : t'.unplaced = t.unplaced) (hts : r'.Offers ts) : Offers r (t :: ts)

namespace Derivation

mutual

/-- A token is read and shifted; a node is reduced after its children. -/
def steps : Derivation → Nat
  | leaf _ => 2
  | node _ children => stepsAll children + 1

def stepsAll : List Derivation → Nat
  | [] => 0
  | d :: ds => steps d + stepsAll ds

end

end Derivation

namespace Machine

open Automaton

/-- The first of the tokens waits and the others are offered. -/
inductive Ready (stack : List Frame) : List Token → Machine → Prop
  | intro {t t' : Token} {ts : List Token} {r : Remaining} (hplaced : t'.unplaced = t.unplaced)
      (hts : r.Offers ts) : Ready stack (t :: ts) ⟨stack, some t', r⟩

section Moves

variable {states : Array State} {first : SetTable}

theorem run_of_step {m m' : Machine} (h : step states m = .next m') (fuel : Nat) :
    run states (fuel + 1) m = run states fuel m' := by
  rw [run, h]

theorem step_read {stack : List Frame} {s : State} (hs : stateOf states stack = some s)
    {t : Token} {r r' : Remaining} (hnext : r.next s.expected = .ok (t, r')) :
    step states ⟨stack, none, r⟩ = .next ⟨stack, some t, r'⟩ := by
  simp only [step, hs, Option.map_some, Option.getD_some, hnext]

theorem step_shift {stack : List Frame} {s : State} (hs : stateOf states stack = some s)
    {t : Token} {target : Nat} (haction : s.action? t.terminal = some (.shift target))
    (r : Remaining) :
    step states ⟨stack, some t, r⟩ = .next ⟨⟨target, .leaf t⟩ :: stack, none, r⟩ := by
  simp only [step, hs, Option.bind_some, haction]

theorem reduce_frames {stack frames : List Frame} {s : State} {p : Production} {target : Nat}
    (hsymbols : frames.map (·.tree.symbol) = p.rhs) (hs : stateOf states stack = some s)
    (hgoto : s.goto? p.lhs = some target) :
    reduce states (frames.reverse ++ stack) p =
      some (⟨target, .node p (frames.map (·.tree))⟩ :: stack) := by
  have hlength : p.rhs.length = frames.reverse.length := by
    rw [← hsymbols, List.length_map, List.length_reverse]
  have hguard : guard ((frames.map (·.tree)).map Derivation.symbol = p.rhs) = some () := by
    rw [List.map_map]
    exact if_pos hsymbols
  unfold reduce
  rw [hlength, List.take_left, List.drop_left, List.reverse_reverse]
  exact Option.bind_eq_some_iff.mpr ⟨(), hguard, Option.bind_eq_some_iff.mpr
    ⟨s, hs, Option.bind_eq_some_iff.mpr ⟨target, hgoto, rfl⟩⟩⟩

theorem step_reduce {stack stack' : List Frame} {s : State} (hs : stateOf states stack = some s)
    {t : Token} {p : Production} (haction : s.action? t.terminal = some (.reduce p))
    (hreduce : reduce states stack p = some stack') (r : Remaining) :
    step states ⟨stack, some t, r⟩ = .next ⟨stack', some t, r⟩ := by
  simp only [step, hs, Option.bind_some, haction, hreduce]

theorem step_accept {f : Frame} {s : State} (hs : states[f.state]? = some s) {t : Token}
    (haction : s.action? t.terminal = some .accept)
    (hstart : f.tree.symbol = .nonTerminal .start) (r : Remaining) :
    step states ⟨[f], some t, r⟩ = .accepted f.tree := by
  have hstate : stateOf states [f] = some s := hs
  simp only [step, hstate, Option.bind_some, haction, hstart, ↓reduceIte]

/-- Shifting a token is followed by reading the next one. -/
theorem ready_of_shift {stack : List Frame} {s s' : State} (hs : stateOf states stack = some s)
    {t w : Token} {target : Nat} (haction : s.action? t.terminal = some (.shift target))
    (hs' : states[target]? = some s') (hexpected : s'.expected.contains w.terminal = true)
    {r : Remaining} {ts : List Token} (hoffers : r.Offers (w :: ts)) :
    ∃ m', Ready (⟨target, .leaf t⟩ :: stack) (w :: ts) m' ∧
      ∀ fuel, run states (2 + fuel) ⟨stack, some t, r⟩ = run states fuel m' := by
  cases hoffers with
  | @cons _ r' _ w' _ hnext hplaced hts =>
    refine ⟨_, .intro hplaced hts, fun fuel => ?_⟩
    have hstate : stateOf states (⟨target, .leaf t⟩ :: stack) = some s' := hs'
    rw [Nat.add_comm 2 fuel, run_of_step (step_shift hs haction r),
      run_of_step (step_read hstate (hnext _ hexpected))]

end Moves

section Runs

variable {states : Array State} {first : SetTable}
  (hcomplete : Complete Grammar.productions first states)

/-- Wherever the derivation may come next, the machine puts it on the stack. -/
def Follows (states : Array State) (first : SetTable) (d : Derivation) : Prop :=
  ∀ ⦃stack : List Frame⦄ ⦃s : State⦄ ⦃p : Production⦄ ⦃rest : List Symbol⦄ ⦃t : Terminal⦄
    ⦃w : Token⦄ ⦃ts : List Token⦄ ⦃m : Machine⦄,
    stateOf states stack = some s → Holds s p (d.symbol :: rest) t →
    Leads first t rest w.terminal → Ready stack (d.tokens ++ w :: ts) m →
    ∃ f s' m', f.tree.unplaced = d.unplaced ∧ states[f.state]? = some s' ∧ Holds s' p rest t ∧
      Ready (f :: stack) (w :: ts) m' ∧
      ∀ fuel, run states (d.steps + fuel) m = run states fuel m'

include hcomplete

theorem follows_leaf {x : Token} (hx : x.terminal ≠ .endOfText) :
    Follows states first (.leaf x) := by
  intro stack s p rest t w ts m hs hholds hw hready
  cases hready with
  | @intro _ x' _ r hplaced hts =>
    rw [Derivation.symbol, ← Token.terminal_eq_of_unplaced hplaced] at hholds
    rw [← Token.terminal_eq_of_unplaced hplaced] at hx
    obtain ⟨target, s', haction, hs', hholds'⟩ := hcomplete.shift (stateOf_mem hs) hholds hx
    have hexpected := hcomplete.expected (Array.mem_of_getElem? hs') hholds' hw
    obtain ⟨m', hready', hrun⟩ := ready_of_shift hs haction hs' hexpected hts
    exact ⟨⟨target, .leaf x'⟩, s', m', congrArg Derivation.leaf hplaced, hs', hholds', hready', hrun⟩

theorem follows_all {ds : List Derivation}
    (hds : ∀ d ∈ ds, (Derives Grammar.productions d ∧ d.symbol.Inner) ∧ Follows states first d)
    {stack : List Frame} {s : State} {p : Production} {w : Token} {ts : List Token} {m : Machine}
    (hs : stateOf states stack = some s)
    (hholds : Holds s p (ds.map Derivation.symbol) w.terminal)
    (hready : Ready stack (Derivation.tokensAll ds ++ w :: ts) m) :
    ∃ (frames : List Frame) (s' : State) (m' : Machine),
      frames.map (·.tree.unplaced) = ds.map Derivation.unplaced ∧
      stateOf states (frames.reverse ++ stack) = some s' ∧ Holds s' p [] w.terminal ∧
      Ready (frames.reverse ++ stack) (w :: ts) m' ∧
      ∀ fuel, run states (Derivation.stepsAll ds + fuel) m = run states fuel m' := by
  induction ds generalizing stack s m with
  | nil =>
    refine ⟨[], s, m, rfl, hs, hholds, hready, fun fuel => ?_⟩
    rw [Derivation.stepsAll, Nat.zero_add]
  | cons d ds ih =>
    obtain ⟨⟨-, hfollows⟩, hds⟩ := List.forall_mem_cons.mp hds
    -- The token behind `d` is the first one of the derivations that follow, or `w`.
    obtain ⟨u, us, htokens, hu⟩ := exists_leading_token hcomplete (fun e he => (hds e he).1)
      (show Leads first w.terminal [] w.terminal from TerminalSet.contains_single.mpr rfl) ts
    rw [List.append_nil] at hu
    rw [Derivation.tokensAll, List.append_assoc, htokens] at hready
    obtain ⟨f, s₁, m₁, htree, hs₁, hholds₁, hready₁, hrun₁⟩ := hfollows hs hholds hu hready
    rw [← htokens] at hready₁
    have hstate : stateOf states (f :: stack) = some s₁ := hs₁
    obtain ⟨frames, s', m', htrees, hs', hholds', hready', hrun'⟩ :=
      ih hds hstate hholds₁ hready₁
    have happend : (f :: frames).reverse ++ stack = frames.reverse ++ f :: stack := by simp
    refine ⟨f :: frames, s', m', ?_, ?_, hholds', ?_, fun fuel => ?_⟩
    · rw [List.map_cons, htree, htrees, List.map_cons]
    · rw [happend, hs']
    · rw [happend]
      exact hready'
    · rw [Derivation.stepsAll, Nat.add_assoc, hrun₁, hrun']

theorem follows_node {p : Production} {children : List Derivation}
    (hproduction : p ∈ Grammar.productions) (hsymbols : children.map Derivation.symbol = p.rhs)
    (hchildren : ∀ d ∈ children,
      (Derives Grammar.productions d ∧ d.symbol.Inner) ∧ Follows states first d) :
    Follows states first (.node p children) := by
  intro stack s q rest t w ts m hs hholds hw hready
  have hclosed := hcomplete.close (stateOf_mem hs) hholds hproduction rfl hw
  rw [← hsymbols] at hclosed
  obtain ⟨frames, s₁, m₁, htrees, hs₁, hholds₁, hready₁, hrun₁⟩ :=
    follows_all hcomplete hchildren hs hclosed hready
  obtain ⟨target, s', hgoto, hs', hholds'⟩ := hcomplete.goto (stateOf_mem hs) hholds
  have hframes : frames.map (·.tree.symbol) = p.rhs := by
    rw [← hsymbols]
    have hmapped := congrArg (List.map Derivation.symbol) htrees
    simpa [Function.comp_def] using hmapped
  have hreduce := reduce_frames hframes hs hgoto
  cases hready₁ with
  | @intro _ w' _ r hplaced hts =>
    have haction : s₁.action? w'.terminal = some (.reduce p) := by
      rw [Token.terminal_eq_of_unplaced hplaced]
      exact hcomplete.reduce (stateOf_mem hs₁) hholds₁
    refine ⟨⟨target, .node p (frames.map (·.tree))⟩, s', _, ?_, hs', hholds', .intro hplaced hts,
      fun fuel => ?_⟩
    · rw [Derivation.unplaced, Derivation.unplaced, Derivation.unplacedAll_eq_map,
        Derivation.unplacedAll_eq_map, List.map_map, ← htrees]
      rfl
    · rw [Derivation.steps, Nat.add_assoc, hrun₁, Nat.add_comm 1 fuel,
        run_of_step (step_reduce hs₁ haction hreduce r)]

/-- Inner derivations are followed. -/
theorem follows_of_derives {d : Derivation} (hd : Derives Grammar.productions d)
    (hinner : d.symbol.Inner) : Follows states first d := by
  induction hd with
  | leaf x => exact follows_leaf hcomplete fun hend => hinner.2.2 (congrArg Symbol.terminal hend)
  | @node p children hproduction hsymbols hchildren ih =>
    have hroot : p.lhs ≠ .root := fun heq => hinner.1 (congrArg Symbol.nonTerminal heq)
    refine follows_node hcomplete hproduction hsymbols fun d hd => ?_
    have hinner' := inner_of_child hproduction hsymbols hroot hd
    exact ⟨⟨hchildren d hd, hinner'⟩, ih d hd hinner'⟩

/-- A text that offers the tokens of a derivation of the start symbol, and then its end, is accepted
with that derivation after one step for its first token, one for each part of the derivation as
`steps` counts them, and a last one. -/
theorem run_of_offers {d : Derivation} (hd : Derives Grammar.productions d)
    (hstart : d.symbol = .nonTerminal .start) {w : Token} (hw : w.terminal = .endOfText)
    {r : Remaining} (hoffers : r.Offers (d.tokens ++ [w])) :
    ∃ d', d'.unplaced = d.unplaced ∧
      ∀ fuel, run states (d.steps + fuel + 2) ⟨[], none, r⟩ = .ok d' := by
  obtain ⟨q, s₀, hq, hs₀, hholds⟩ := hcomplete.initial
  cases hq
  cases hd with
  | leaf x => cases hstart
  | @node p children hproduction hsymbols hchildren =>
    have hlhs : p.lhs = .start := Symbol.nonTerminal.inj hstart
    have hroot : p.lhs ≠ .root := by rw [hlhs]; decide
    have hinner : ∀ d ∈ children, Derives Grammar.productions d ∧ d.symbol.Inner :=
      fun d hd => ⟨hchildren d hd, inner_of_child hproduction hsymbols hroot hd⟩
    have hfollows := follows_node hcomplete hproduction hsymbols fun d hd =>
      ⟨hinner d hd, follows_of_derives hcomplete (hinner d hd).1 (hinner d hd).2⟩
    have hend : Leads first .endOfText [.terminal .endOfText] w.terminal := by
      rw [hw]
      exact TerminalSet.contains_single.mpr rfl
    -- The first token is expected because the production of `d` can start in the first state.
    have hclosed := hcomplete.close (Array.mem_of_getElem? hs₀) hholds hproduction hlhs hend
    obtain ⟨u, us, htokens, hu⟩ := exists_leading_token hcomplete hinner
      (show Leads first w.terminal [] w.terminal from TerminalSet.contains_single.mpr rfl) []
    rw [List.append_nil, hsymbols] at hu
    have hexpected := hcomplete.expected (Array.mem_of_getElem? hs₀) hclosed hu
    rw [Derivation.tokens, htokens] at hoffers
    cases hoffers with
    | @cons _ r' _ u' _ hnext hplaced hts =>
      have hready : Ready [] ((Derivation.node p children).tokens ++ [w]) ⟨[], some u', r'⟩ := by
        rw [Derivation.tokens, htokens]
        exact .intro hplaced hts
      have hstate : stateOf states [] = some s₀ := hs₀
      rw [← hlhs] at hholds
      obtain ⟨f, s', m', htree, hs', hholds', hready', hrun⟩ := hfollows hstate hholds hend hready
      refine ⟨f.tree, htree, fun fuel => ?_⟩
      cases hready' with
      | @intro _ w' _ r'' hplaced' _ =>
        have haction : s'.action? w'.terminal = some .accept := by
          rw [Token.terminal_eq_of_unplaced hplaced', hw]
          exact hcomplete.accept (Array.mem_of_getElem? hs') hholds'
        have hsymbol : f.tree.symbol = .nonTerminal .start := by
          rw [Derivation.symbol_eq_of_unplaced htree]
          exact hstart
        rw [run_of_step (step_read hstate (hnext _ hexpected)), Nat.add_assoc, hrun, run,
          step_accept hs' haction hsymbol]

end Runs

end Machine

end CheckedExceptions.Language
