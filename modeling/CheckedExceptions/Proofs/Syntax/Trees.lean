import CheckedExceptions.Proofs.Parsing
import CheckedExceptions.Proofs.Syntax.Unplaced

/-!
Which trees stand for a derivation. A production with a label becomes a node with that label, which
covers the text from its first to its last token; what stands under a production without a label
goes to the node around it. Names, strings, numbers and operators are kept as tokens, and all other
tokens are dropped. This determines the tree of a text, and it is the one that is built.
-/
namespace CheckedExceptions.Language

/-- Tokens of these kinds have texts of their own, and a tree keeps them. -/
def keptTerminals : List Terminal := [.name, .string, .number, .operator]

def Token.isKept (t : Token) : Bool := t.terminal ∈ keptTerminals

/-- From the start of the first token to the end of the last one. -/
def covered? (ts : List Token) : Option Extent := do
  return ⟨(← ts.head?).extent.start, (← ts.getLast?).extent.stop⟩

namespace Derivation

mutual

/-- The trees stand for the derivation. -/
inductive Shows : Derivation → List Tree → Prop
  | kept {t : Token} (h : t.isKept = true) : Shows (.leaf t) [.token t]
  | dropped {t : Token} (h : t.isKept = false) : Shows (.leaf t) []
  | labelled {p : Production} {label : Label} {ds : List Derivation} {ts : List Tree}
      (hlabel : p.label = some label) (hparts : ShowsAll ds ts) :
      Shows (.node p ds) [.node label (covered? (tokensAll ds)) ts]
  | inlined {p : Production} {ds : List Derivation} {ts : List Tree} (hlabel : p.label = none)
      (hparts : ShowsAll ds ts) : Shows (.node p ds) ts

inductive ShowsAll : List Derivation → List Tree → Prop
  | nil : ShowsAll [] []
  | cons {d : Derivation} {ds : List Derivation} {ts us : List Tree} (hfirst : Shows d ts)
      (hrest : ShowsAll ds us) : ShowsAll (d :: ds) (ts ++ us)

end

section Ends

mutual

theorem first?_eq : ∀ d : Derivation, d.first? = d.tokens.head?
  | .leaf _ => rfl
  | .node _ children => firstOf?_eq children

theorem firstOf?_eq : ∀ ds : List Derivation, firstOf? ds = (tokensAll ds).head?
  | [] => rfl
  | d :: ds => by
    rw [firstOf?, first?_eq d, firstOf?_eq ds, tokensAll, List.head?_append]
    cases d.tokens.head? <;> rfl

end

mutual

theorem last?_eq : ∀ d : Derivation, d.last? = d.tokens.getLast?
  | .leaf _ => rfl
  | .node _ children => lastOf?_eq children

theorem lastOf?_eq : ∀ ds : List Derivation, lastOf? ds = (tokensAll ds).getLast?
  | [] => rfl
  | d :: ds => by
    rw [lastOf?, last?_eq d, lastOf?_eq ds, tokensAll, List.getLast?_append]
    cases (tokensAll ds).getLast? <;> rfl

end

theorem extentOf?_eq_covered? (ds : List Derivation) :
    extentOf? ds = covered? (tokensAll ds) := by
  rw [extentOf?, firstOf?_eq, lastOf?_eq, covered?]
  cases (tokensAll ds).head? with
  | none => rfl
  | some a => cases (tokensAll ds).getLast? <;> rfl

end Ends

theorem isOpen_eq_isKept (t : Token) : t.terminal.isOpen = t.isKept := by
  obtain ⟨terminal, text, extent⟩ := t
  cases terminal <;> rfl

mutual

/-- What is built from a derivation stands for it. -/
theorem shows_trees : ∀ d : Derivation, d.Shows d.trees
  | .leaf t => by
    rw [trees, isOpen_eq_isKept]
    cases hkept : t.isKept with
    | true => exact .kept hkept
    | false => exact .dropped hkept
  | .node p ds => by
    have hparts := showsAll_treesAll ds
    rw [trees]
    cases hlabel : p.label with
    | none => exact .inlined hlabel hparts
    | some label =>
      rw [extentOf?_eq_covered?]
      exact .labelled hlabel hparts

theorem showsAll_treesAll : ∀ ds : List Derivation, ShowsAll ds (treesAll ds)
  | [] => .nil
  | d :: ds => .cons (shows_trees d) (showsAll_treesAll ds)

end

mutual

/-- Nothing else stands for it. -/
theorem Shows.eq_trees : ∀ {d : Derivation} {ts : List Tree}, d.Shows ts → ts = d.trees
  | .leaf t, _, .kept hkept => by rw [trees, isOpen_eq_isKept, hkept, if_pos rfl]
  | .leaf t, _, .dropped hdropped => by
    rw [trees, isOpen_eq_isKept, hdropped, if_neg Bool.false_ne_true]
  | .node p ds, _, .labelled hlabel hparts => by
    rw [trees, hlabel, hparts.eq_treesAll, extentOf?_eq_covered?]
  | .node p ds, _, .inlined hlabel hparts => by rw [trees, hlabel, hparts.eq_treesAll]

theorem ShowsAll.eq_treesAll : ∀ {ds : List Derivation} {ts : List Tree}, ShowsAll ds ts →
    ts = treesAll ds
  | [], _, .nil => rfl
  | _ :: _, _, .cons hfirst hrest => by rw [treesAll, hfirst.eq_trees, hrest.eq_treesAll]

end

theorem shows_iff {d : Derivation} {ts : List Tree} : d.Shows ts ↔ ts = d.trees := by
  constructor
  · exact Shows.eq_trees
  · rintro rfl
    exact shows_trees d

end Derivation

theorem start_of_production : ∀ p ∈ Grammar.productions, p.lhs = .start →
    p.label = some .start ∧ ∀ s ∈ p.rhs, s ≠ .nonTerminal .start := by
  decide +kernel

/-- One tree stands for the derivation of a whole text. -/
theorem Derivation.shows_singleton_iff {d : Derivation} (hd : Derives Grammar.productions d)
    (hstart : d.symbol = .nonTerminal .start) {tree : Tree} : d.Shows [tree] ↔ tree = d.tree := by
  cases hd with
  | leaf t => cases hstart
  | @node p children hproduction _ _ =>
    obtain ⟨hlabel, -⟩ := start_of_production p hproduction (Symbol.nonTerminal.inj hstart)
    rw [shows_iff, Derivation.tree, Derivation.trees, hlabel]
    exact List.singleton_inj

section Leaves

mutual

/-- The tokens of a tree, in order. -/
def Tree.tokens : Tree → List Token
  | .token t => [t]
  | .node _ _ children => Tree.tokensAll children

def Tree.tokensAll : List Tree → List Token
  | [] => []
  | t :: ts => t.tokens ++ Tree.tokensAll ts

end

theorem Tree.tokensAll_append (ts us : List Tree) :
    tokensAll (ts ++ us) = tokensAll ts ++ tokensAll us := by
  induction ts with
  | nil => rfl
  | cons t ts ih => rw [List.cons_append, tokensAll, tokensAll, ih, List.append_assoc]

mutual

/-- The tokens in the trees are those of the derivation that are kept. -/
theorem Derivation.Shows.tokensAll_eq : ∀ {d : Derivation} {ts : List Tree}, d.Shows ts →
    Tree.tokensAll ts = d.tokens.filter Token.isKept
  | .leaf t, _, .kept hkept => by
    rw [tokens, List.filter_cons_of_pos hkept]
    rfl
  | .leaf t, _, .dropped hdropped => by
    rw [tokens, List.filter_cons_of_neg (by rw [hdropped]; exact Bool.false_ne_true)]
    rfl
  | .node p ds, _, .labelled _ hparts => by
    rw [tokens, ← hparts.tokensAll_eq]
    exact List.append_nil _
  | .node p ds, _, .inlined _ hparts => hparts.tokensAll_eq

theorem Derivation.ShowsAll.tokensAll_eq : ∀ {ds : List Derivation} {ts : List Tree},
    ShowsAll ds ts → Tree.tokensAll ts = (Derivation.tokensAll ds).filter Token.isKept
  | [], _, .nil => rfl
  | _ :: _, _, .cons hfirst hrest => by
    rw [Tree.tokensAll_append, Derivation.tokensAll, List.filter_append, hfirst.tokensAll_eq,
      hrest.tokensAll_eq]

end

theorem Derivation.Shows.tokens_eq {d : Derivation} {tree : Tree} (h : d.Shows [tree]) :
    tree.tokens = d.tokens.filter Token.isKept := by
  rw [← h.tokensAll_eq]
  exact (List.append_nil _).symm

end Leaves

end CheckedExceptions.Language
