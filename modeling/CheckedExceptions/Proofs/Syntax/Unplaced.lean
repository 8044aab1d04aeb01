import CheckedExceptions.Language.Tree

/-!
Tokens, derivations and syntax trees without places. Two of them that are equal without their
places have the same productions, labels, terminals and texts, and differ at most in where they
stand in a text.
-/
namespace CheckedExceptions.Language

/-- Stands for all extents. -/
def Extent.nowhere : Extent := ⟨.first, .first⟩

def Token.unplaced (t : Token) : Token := ⟨t.terminal, t.text, .nowhere⟩

theorem Token.terminal_eq_of_unplaced {t u : Token} (h : t.unplaced = u.unplaced) :
    t.terminal = u.terminal :=
  (Token.mk.inj h).1

mutual

def Derivation.unplaced : Derivation → Derivation
  | .leaf t => .leaf t.unplaced
  | .node p children => .node p (Derivation.unplacedAll children)

def Derivation.unplacedAll : List Derivation → List Derivation
  | [] => []
  | d :: ds => d.unplaced :: Derivation.unplacedAll ds

end

mutual

def Tree.unplaced : Tree → Tree
  | .token t => .token t.unplaced
  | .node label _ children => .node label none (Tree.unplacedAll children)

def Tree.unplacedAll : List Tree → List Tree
  | [] => []
  | t :: ts => t.unplaced :: Tree.unplacedAll ts

end

theorem Tree.unplacedAll_append (ts us : List Tree) :
    unplacedAll (ts ++ us) = unplacedAll ts ++ unplacedAll us := by
  induction ts with
  | nil => rfl
  | cons t ts ih => rw [List.cons_append, unplacedAll, unplacedAll, ih, List.cons_append]

namespace Derivation

theorem unplacedAll_eq_map (ds : List Derivation) : unplacedAll ds = ds.map unplaced := by
  induction ds with
  | nil => rfl
  | cons d ds ih => rw [unplacedAll, ih, List.map_cons]

@[simp] theorem symbol_unplaced (d : Derivation) : d.unplaced.symbol = d.symbol := by
  cases d <;> rfl

theorem symbol_eq_of_unplaced {d e : Derivation} (h : d.unplaced = e.unplaced) :
    d.symbol = e.symbol := by
  rw [← symbol_unplaced d, h, symbol_unplaced]

mutual

theorem trees_unplaced : ∀ d : Derivation,
    Tree.unplacedAll d.unplaced.trees = Tree.unplacedAll d.trees
  | .leaf t => by
    simp only [unplaced, trees, Token.unplaced]
    split <;> rfl
  | .node p children => by
    have hchildren := treesAll_unplaced children
    cases hlabel : p.label with
    | none => simpa only [unplaced, trees, hlabel] using hchildren
    | some label =>
      simp only [unplaced, trees, hlabel, Tree.unplacedAll, Tree.unplaced, hchildren]

theorem treesAll_unplaced : ∀ ds : List Derivation,
    Tree.unplacedAll (treesAll (unplacedAll ds)) = Tree.unplacedAll (treesAll ds)
  | [] => rfl
  | d :: ds => by
    rw [unplacedAll, treesAll, treesAll, Tree.unplacedAll_append, Tree.unplacedAll_append,
      trees_unplaced d, treesAll_unplaced ds]

end

/-- The syntax tree of a whole text without its places only depends on the derivation without its
places. -/
theorem tree_unplaced (d : Derivation) : d.unplaced.tree.unplaced = d.tree.unplaced := by
  have htrees := trees_unplaced d
  unfold tree
  cases hplaced : d.trees with
  | nil =>
    rw [hplaced] at htrees
    cases hunplaced : d.unplaced.trees with
    | nil => rfl
    | cons t ts =>
      rw [hunplaced] at htrees
      cases htrees
  | cons u us =>
    rw [hplaced] at htrees
    cases hunplaced : d.unplaced.trees with
    | nil =>
      rw [hunplaced] at htrees
      cases htrees
    | cons t ts =>
      rw [hunplaced] at htrees
      exact (List.cons.inj htrees).1

end Derivation

end CheckedExceptions.Language
