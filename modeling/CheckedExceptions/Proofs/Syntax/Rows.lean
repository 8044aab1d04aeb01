import CheckedExceptions.Proofs.Syntax.Spelling
import CheckedExceptions.Proofs.Syntax.Trees
import Mathlib.Order.Basic

/-!
Where the parts of a syntax tree stand. An outline has the part of the text that something covers,
and the outlines of what is inside it. The tokens of a text stand in a row, one behind the other. A
node of the tree covers everything from its first to its last token, so the outlines of the trees
that are made of the tokens stand in a row too, and so do those inside each of them.
-/
namespace CheckedExceptions.Language

section Order

/-- Positions are ordered by lines, and on one line by columns. -/
instance : Preorder Position where
  le p q := p.line < q.line ∨ p.line = q.line ∧ p.column ≤ q.column
  le_refl p := Or.inr ⟨rfl, le_refl _⟩
  le_trans p q r hpq hqr := by omega

end Order

/-- What something covers, and the outlines of what is inside it. -/
inductive Outline
  | mk (extent : Extent) (parts : List Outline)

namespace Outline

/-- Outlines between two positions, one behind the other and each with its own parts inside it. -/
inductive Row : Position → List Outline → Position → Prop
  | nil {p q : Position} (h : p ≤ q) : Row p [] q
  | cons {p q : Position} {x : Extent} {parts os : List Outline} (hstart : p ≤ x.start)
      (hparts : Row x.start parts x.stop) (hrest : Row x.stop os q) : Row p (.mk x parts :: os) q

section Row

variable {p q : Position} {x : Extent} {parts os os' : List Outline}

theorem Row.le (h : Row p os q) : p ≤ q := by
  induction h with
  | nil h => exact h
  | cons hstart _ _ hinside hbehind => exact le_trans hstart (le_trans hinside hbehind)

theorem Row.mono {p' q' : Position} (h : Row p os q) (hp : p' ≤ p) (hq : q ≤ q') :
    Row p' os q' := by
  induction h generalizing p' with
  | nil h => exact .nil (le_trans hp (le_trans h hq))
  | cons hstart hparts _ _ ih => exact .cons (le_trans hp hstart) hparts (ih (le_refl _) hq)

/-- Two rows one behind the other are one row, which can be cut where the first one ends. -/
theorem row_append : Row p (os ++ os') q ↔ ∃ m, Row p os m ∧ Row m os' q := by
  constructor
  · intro h
    induction os generalizing p with
    | nil => exact ⟨p, .nil (le_refl p), h⟩
    | cons o os ih =>
      cases h with
      | cons hstart hparts hrest =>
        obtain ⟨m, hfront, hback⟩ := ih hrest
        exact ⟨m, .cons hstart hparts hfront, hback⟩
  · rintro ⟨m, hfront, hback⟩
    induction hfront with
    | nil h => exact hback.mono h (le_refl q)
    | cons hstart hparts _ _ ih => exact .cons hstart hparts (ih hback)

theorem row_cons {o : Outline} : Row p (o :: os) q ↔ ∃ m, Row p [o] m ∧ Row m os q := by
  rw [← List.singleton_append, row_append]

theorem row_single :
    Row p [.mk x parts] q ↔ p ≤ x.start ∧ Row x.start parts x.stop ∧ x.stop ≤ q := by
  constructor
  · intro h
    cases h with
    | cons hstart hparts hrest => exact ⟨hstart, hparts, hrest.le⟩
  · rintro ⟨hstart, hparts, hstop⟩
    exact .cons hstart hparts (.nil hstop)

end Row

/-- Wherever the first outlines stand in a row, so do the others. -/
def Thins (os os' : List Outline) : Prop := ∀ p q, Row p os q → Row p os' q

section Thins

variable {x : Extent} {os os' os₁ os₂ parts parts' : List Outline}

theorem Thins.refl (os : List Outline) : Thins os os := fun _ _ h => h

theorem Thins.trans (h : Thins os os₁) (h' : Thins os₁ os₂) : Thins os os₂ :=
  fun p q hrow => h' p q (h p q hrow)

theorem Thins.append (h : Thins os os₁) (h' : Thins os' os₂) : Thins (os ++ os') (os₁ ++ os₂) := by
  intro p q hrow
  obtain ⟨m, hfront, hback⟩ := row_append.mp hrow
  exact row_append.mpr ⟨m, h p m hfront, h' m q hback⟩

theorem thins_nil (os : List Outline) : Thins os [] := fun _ _ h => .nil h.le

/-- What stands in front is left out. -/
theorem Thins.behind (h : Thins os' os₁) (os : List Outline) : Thins (os ++ os') os₁ :=
  (thins_nil os).append h

/-- What stands behind is left out. -/
theorem Thins.before (h : Thins os os₁) (os' : List Outline) : Thins (os ++ os') os₁ := by
  have happend := h.append (thins_nil os')
  rwa [List.append_nil] at happend

theorem Thins.inside (h : Thins parts parts') : Thins [.mk x parts] [.mk x parts'] := by
  intro p q hrow
  obtain ⟨hstart, hparts, hstop⟩ := row_single.mp hrow
  exact row_single.mpr ⟨hstart, h _ _ hparts, hstop⟩

end Thins

end Outline

open Outline

section Tokens

def Token.outline (t : Token) : Outline := .mk t.extent []

/-- Tokens in a row can be taken together to what reaches from the first to the last of them. -/
theorem thins_enclosed {ts : List Token} {a b : Token} (ha : ts.head? = some a)
    (hb : ts.getLast? = some b) :
    Thins (ts.map Token.outline)
      [.mk ⟨a.extent.start, b.extent.stop⟩ (ts.map Token.outline)] := by
  intro p q hrow
  obtain ⟨rest, rfl⟩ := List.head?_eq_some_iff.mp ha
  obtain ⟨front, hlast⟩ := List.getLast?_eq_some_iff.mp hb
  have hstart : p ≤ a.extent.start ∧
      Row a.extent.start ((a :: rest).map Token.outline) q := by
    cases hrow with
    | cons hstart hparts hrest => exact ⟨hstart, .cons (le_refl _) hparts hrest⟩
  obtain ⟨hstart, hrow⟩ := hstart
  rw [hlast, List.map_append, row_append] at hrow
  obtain ⟨m, hfront, hback⟩ := hrow
  obtain ⟨hm, hparts, hstop⟩ := row_single.mp hback
  refine row_single.mpr ⟨hstart, ?_, hstop⟩
  rw [hlast, List.map_append, row_append]
  exact ⟨m, hfront, row_single.mpr ⟨hm, hparts, le_refl _⟩⟩

end Tokens

section Trees

mutual

/-- The outlines of a tree. A node that covers no part of the text has none of its own. -/
def Tree.outlines : Tree → List Outline
  | .token t => [t.outline]
  | .node _ (some x) parts => [.mk x (Tree.outlinesAll parts)]
  | .node _ none parts => Tree.outlinesAll parts

def Tree.outlinesAll : List Tree → List Outline
  | [] => []
  | t :: ts => t.outlines ++ Tree.outlinesAll ts

end

theorem Tree.outlinesAll_append (ts ts' : List Tree) :
    outlinesAll (ts ++ ts') = outlinesAll ts ++ outlinesAll ts' := by
  induction ts with
  | nil => rfl
  | cons t ts ih => rw [List.cons_append, outlinesAll, outlinesAll, ih, List.append_assoc]

namespace Derivation

theorem thins_extentOf? {ds : List Derivation} {x : Extent} (h : extentOf? ds = some x) :
    Thins ((tokensAll ds).map Token.outline) [.mk x ((tokensAll ds).map Token.outline)] := by
  unfold extentOf? at h
  split at h
  · rename_i a b ha hb
    cases h
    rw [firstOf?_eq] at ha
    rw [lastOf?_eq] at hb
    exact thins_enclosed ha hb
  · cases h

mutual

/-- The trees of a derivation stand where its tokens do. -/
theorem thins_trees : ∀ d : Derivation,
    Thins (d.tokens.map Token.outline) (Tree.outlinesAll d.trees)
  | .leaf t => by
    rw [trees]
    split
    · exact Thins.refl _
    · exact thins_nil _
  | .node p children => by
    have hchildren := thins_treesAll children
    rw [tokens, trees]
    cases p.label with
    | none => exact hchildren
    | some label =>
      cases hextent : extentOf? children with
      | none =>
        simp only [Tree.outlinesAll, Tree.outlines, List.append_nil]
        exact hchildren
      | some x => exact (thins_extentOf? hextent).trans hchildren.inside

theorem thins_treesAll : ∀ ds : List Derivation,
    Thins ((tokensAll ds).map Token.outline) (Tree.outlinesAll (treesAll ds))
  | [] => Thins.refl _
  | d :: ds => by
    rw [tokensAll, treesAll, List.map_append, Tree.outlinesAll_append]
    exact (thins_trees d).append (thins_treesAll ds)

end

end Derivation

end Trees

end CheckedExceptions.Language
