import CheckedExceptions.Proofs.Syntax.Rows
import CheckedExceptions.Proofs.Typing.Matching

/-!
Trees in the order of a text. The nodes stand one behind the other, each with its parts inside it;
a node that has no parts may also share its place with what follows it. Then a walk over the tree
never goes back in the text, and no node reaches beyond the one around it.
-/
namespace CheckedExceptions

open CheckedExceptions.Language

namespace Node

def span? : Node → Option Span
  | absent | foreign _ => none
  | unit _ span | classDef _ _ _ span | funcDef _ _ _ span | tryCatch _ _ _ span
  | clause (.mk _ _ _ span) | raise _ _ span | invoke _ _ _ _ span | plain _ _ span => some span

/-- The node has its place in a file at a part of the text. -/
def Covers (file : Option String) (n : Node) (x : Extent) : Prop :=
  n.span? = some (.ofExtent file x)

/-- The node covers something between two positions. -/
def LiesBetween (file : Option String) (p q : Position) (n : Node) : Prop :=
  ∃ x, n.Covers file x ∧ p ≤ x.start ∧ x.start ≤ x.stop ∧ x.stop ≤ q

/-- One node starts before another one or where that one does. -/
def StartsBefore (file : Option String) (n m : Node) : Prop :=
  ∃ x y, n.Covers file x ∧ m.Covers file y ∧ x.start ≤ y.start

/-- Nodes between two positions, one behind the other and each with its own parts inside it. Only a
node without parts may share its place with what follows. -/
inductive Laid (file : Option String) : Position → List Node → Position → Prop
  | nil {p q : Position} (h : p ≤ q) : Laid file p [] q
  | cons {p q : Position} {n : Node} {ns : List Node} {x : Extent} (hcovers : n.Covers file x)
      (hstart : p ≤ x.start) (hparts : Laid file x.start n.children x.stop)
      (hrest : Laid file x.stop ns q) : Laid file p (n :: ns) q
  | sharing {p q : Position} {n : Node} {ns : List Node} {x : Extent} (hcovers : n.Covers file x)
      (hparts : n.children = []) (hstart : p ≤ x.start) (hextent : x.start ≤ x.stop)
      (hstop : x.stop ≤ q) (hrest : Laid file x.start ns q) : Laid file p (n :: ns) q

section Laid

variable {file : Option String} {p q : Position} {n : Node} {ns ns' : List Node} {x : Extent}

theorem Covers.ne_absent (h : n.Covers file x) : n ≠ .absent := by
  rintro rfl
  cases h

theorem Covers.preorder_eq (h : n.Covers file x) :
    n.preorder = n :: n.children.flatMap preorder :=
  Node.preorder_eq h.ne_absent

theorem LiesBetween.mono {p' q' : Position} (h : n.LiesBetween file p q) (hp : p' ≤ p)
    (hq : q ≤ q') : n.LiesBetween file p' q' := by
  obtain ⟨x, hcovers, hstart, hextent, hstop⟩ := h
  exact ⟨x, hcovers, le_trans hp hstart, hextent, le_trans hstop hq⟩

theorem Laid.le (h : Laid file p ns q) : p ≤ q := by
  induction h with
  | nil h => exact h
  | cons _ hstart _ _ hinside hbehind => exact le_trans hstart (le_trans hinside hbehind)
  | sharing _ _ hstart _ _ _ hbehind => exact le_trans hstart hbehind

theorem Laid.mono {p' q' : Position} (h : Laid file p ns q) (hp : p' ≤ p) (hq : q ≤ q') :
    Laid file p' ns q' := by
  induction h generalizing p' with
  | nil h => exact .nil (le_trans hp (le_trans h hq))
  | cons hcovers hstart hparts _ _ ih =>
    exact .cons hcovers (le_trans hp hstart) hparts (ih (le_refl _) hq)
  | sharing hcovers hparts hstart hextent hstop _ ih =>
    exact .sharing hcovers hparts (le_trans hp hstart) hextent (le_trans hstop hq)
      (ih (le_refl _) hq)

theorem Laid.append {m : Position} (h : Laid file p ns m) (h' : Laid file m ns' q) :
    Laid file p (ns ++ ns') q := by
  induction h with
  | nil h => exact h'.mono h (le_refl q)
  | cons hcovers hstart hparts _ _ ih => exact .cons hcovers hstart hparts (ih h')
  | sharing hcovers hparts hstart hextent hstop _ ih =>
    exact .sharing hcovers hparts hstart hextent (le_trans hstop h'.le) (ih h')

theorem Laid.ne_absent (h : Laid file p ns q) : ∀ n ∈ ns, n ≠ .absent := by
  induction h with
  | nil _ => exact List.forall_mem_nil _
  | cons hcovers _ _ _ _ ih => exact List.forall_mem_cons.mpr ⟨hcovers.ne_absent, ih⟩
  | sharing hcovers _ _ _ _ _ ih => exact List.forall_mem_cons.mpr ⟨hcovers.ne_absent, ih⟩

theorem Laid.present_eq (h : Laid file p ns q) : present ns = ns := by
  refine List.filter_eq_self.mpr fun n hn => ?_
  have hne := h.ne_absent n hn
  cases n with
  | absent => exact absurd rfl hne
  | _ => rfl

theorem Laid.liesBetween_preorder (h : Laid file p ns q) :
    ∀ n ∈ ns.flatMap preorder, n.LiesBetween file p q := by
  induction h with
  | nil _ => exact List.forall_mem_nil _
  | @cons p q n ns x hcovers hstart hparts hrest ihparts ih =>
    have hextent := hparts.le
    rw [List.flatMap_cons, hcovers.preorder_eq, List.forall_mem_append, List.forall_mem_cons]
    refine ⟨⟨⟨x, hcovers, hstart, hextent, hrest.le⟩, fun m hm => ?_⟩, fun m hm => ?_⟩
    · exact (ihparts m hm).mono hstart hrest.le
    · exact (ih m hm).mono (le_trans hstart hextent) (le_refl q)
  | @sharing p q n ns x hcovers hparts hstart hextent hstop _ ih =>
    rw [List.flatMap_cons, hcovers.preorder_eq, hparts, List.flatMap_nil, List.forall_mem_append]
    refine ⟨List.forall_mem_singleton.mpr ⟨x, hcovers, hstart, hextent, hstop⟩, fun m hm => ?_⟩
    exact (ih m hm).mono hstart (le_refl q)

theorem StartsBefore.of_liesBetween {m : Position} {n' : Node} (h : n.LiesBetween file p m)
    (h' : n'.LiesBetween file m q) : StartsBefore file n n' := by
  obtain ⟨x, hcovers, -, hextent, hstop⟩ := h
  obtain ⟨y, hcovers', hstart', -, -⟩ := h'
  exact ⟨x, y, hcovers, hcovers', le_trans hextent (le_trans hstop hstart')⟩

theorem Covers.startsBefore {m : Node} (h : n.Covers file x) (hm : m.LiesBetween file x.start q) :
    StartsBefore file n m := by
  obtain ⟨y, hcovers, hstart, -, -⟩ := hm
  exact ⟨x, y, h, hcovers, hstart⟩

/-- A walk over the nodes never goes back. -/
theorem Laid.ordered (h : Laid file p ns q) :
    (ns.flatMap preorder).Pairwise (StartsBefore file) := by
  induction h with
  | nil _ => exact List.Pairwise.nil
  | @cons p q n ns x hcovers _ hparts hrest ihparts ih =>
    have hinside := hparts.liesBetween_preorder
    have hbehind := hrest.liesBetween_preorder
    rw [List.flatMap_cons, hcovers.preorder_eq, List.cons_append, List.pairwise_cons,
      List.forall_mem_append, List.pairwise_append]
    refine ⟨⟨fun m hm => ?_, fun m hm => ?_⟩, ihparts, ih, fun m hm m' hm' => ?_⟩
    · exact hcovers.startsBefore (hinside m hm)
    · exact hcovers.startsBefore ((hbehind m hm).mono hparts.le (le_refl q))
    · exact .of_liesBetween (hinside m hm) (hbehind m' hm')
  | @sharing p q n ns x hcovers hparts _ _ _ hrest ih =>
    rw [List.flatMap_cons, hcovers.preorder_eq, hparts, List.flatMap_nil, List.singleton_append,
      List.pairwise_cons]
    exact ⟨fun m hm => hcovers.startsBefore (hrest.liesBetween_preorder m hm), ih⟩

end Laid

end Node

end CheckedExceptions
