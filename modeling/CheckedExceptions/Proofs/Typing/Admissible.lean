import CheckedExceptions.Proofs.Reach
import CheckedExceptions.Typing.Declarations

/-!
What a tree refers to. In an admissible node a thrown or tested type is registered, and an invoked
symbol is declared or the constructor of a registered exception type. A tree of admissible nodes can
be walked over.
-/
namespace CheckedExceptions

/-- The constructor of an exception type. It is not declared anywhere, and has no markers. -/
def exceptionConstructor (name : String) : Symbol :=
  ⟨s!"{name}.{Typing.Site.ctorSuffix}", .constructor, []⟩

namespace Node

/-- The tree itself and all nodes inside it. -/
def Inside : Node → Node → Prop := Relation.ReflTransGen fun n m => m ∈ n.children

/-- What the node refers to is registered or declared. -/
def Admissible (h : Hierarchy) (symbols : List Symbol) : Node → Prop
  | foreign _ => False
  | raise _ type _ => ∃ t, type = some t ∧ h.contains t.name = true
  | invoke _ symbol _ _ _ =>
    symbol ∈ symbols ∨ ∃ name, h.contains name = true ∧ symbol = exceptionConstructor name
  | plain (.typePattern type _) _ _ => h.contains type.name = true
  | _ => True

/-- All nodes of the tree are admissible. -/
def Resolved (h : Hierarchy) (symbols : List Symbol) (tree : Node) : Prop :=
  ∀ n, tree.Inside n → n.Admissible h symbols

variable {h : Hierarchy} {symbols : List Symbol}

theorem resolved_of_children {tree : Node} (hself : tree.Admissible h symbols)
    (hchildren : ∀ m ∈ tree.children, m.Resolved h symbols) : tree.Resolved h symbols := by
  intro n hn
  rcases hn.cases_head with rfl | ⟨m, hm, hmn⟩
  · exact hself
  · exact hchildren m hm n hmn

theorem resolved_absent : Resolved h symbols .absent :=
  resolved_of_children trivial (List.forall_mem_nil _)

theorem resolved_present {nodes : List Node} (hnodes : ∀ n ∈ nodes, n.Resolved h symbols) :
    ∀ n ∈ present nodes, n.Resolved h symbols :=
  fun n hn => hnodes n (mem_present.mp hn).1

theorem resolved_clause {pattern guard body : Node} (span : Span)
    (hpattern : pattern.Resolved h symbols) (hguard : guard.Resolved h symbols)
    (hbody : body.Resolved h symbols) :
    Resolved h symbols (.clause (.mk pattern guard body span)) := by
  refine resolved_of_children trivial (resolved_present ?_)
  simp only [List.forall_mem_cons, List.not_mem_nil, false_implies, implies_true, and_true]
  exact ⟨hpattern, hguard, hbody⟩

theorem resolved_tryCatch {body finalizer : Node} {clauses : List Clause} (span : Span)
    (hbody : body.Resolved h symbols)
    (hclauses : ∀ c ∈ clauses, Resolved h symbols (.clause c))
    (hfinalizer : finalizer.Resolved h symbols) :
    Resolved h symbols (.tryCatch body clauses finalizer span) := by
  refine resolved_of_children trivial ?_
  rw [children, List.cons_append, List.forall_mem_cons, List.forall_mem_append,
    List.forall_mem_map]
  exact ⟨hbody, hclauses, resolved_present (List.forall_mem_singleton.mpr hfinalizer)⟩

theorem mem_children_of_mem_visited {n m : Node} (hm : m ∈ n.visited) : m ∈ n.children := by
  cases n with
  | classDef symbol ctor body span =>
    rw [visited] at hm
    split at hm
    · cases hm
    · exact hm
  | funcDef symbol params body span =>
    rw [visited] at hm
    split at hm
    · cases hm
    · exact hm
  | _ => exact hm

/-- A resolved tree can be walked over. -/
theorem Resolved.sound {tree : Node} (hresolved : tree.Resolved h symbols) : tree.Sound := by
  intro n hn
  have hinside : tree.Inside n :=
    Relation.ReflTransGen.mono (fun _ _ hm => mem_children_of_mem_visited hm) tree n hn
  have hadmissible := hresolved n hinside
  cases n with
  | foreign typeName => exact hadmissible
  | raise value type span =>
    obtain ⟨t, rfl, -⟩ := hadmissible
    rfl
  | _ => trivial

end Node

end CheckedExceptions
