import CheckedExceptions.Proofs.Reach
import CheckedExceptions.Proofs.Steps

/-!
Places in a tree. A place is given by the layers around it, innermost first; filling it with a node
gives the whole tree. The layers up to the innermost propagation point around the place share one
frame with it. Every node that a walk comes to, a clause apart, stands at a place whose layers it
goes into.
-/
namespace CheckedExceptions

/-- A catch clause with a hole in one of its parts. -/
inductive ClausePart
  | inPattern (guard body : Node) (span : Span)
  | inGuard (pattern body : Node) (span : Span)
  | inBody (pattern guard : Node) (span : Span)

namespace ClausePart

def fill : ClausePart → Node → Clause
  | inPattern guard body span, n => .mk n guard body span
  | inGuard pattern body span, n => .mk pattern n body span
  | inBody pattern guard span, n => .mk pattern guard n span

/-- The parts of the clause behind the hole. -/
def rest : ClausePart → List Node
  | inPattern guard body _ => [guard, body]
  | inGuard _ body _ => [body]
  | inBody _ _ _ => []

end ClausePart

/-- A node with a hole in place of one node directly inside it. -/
inductive Layer
  | unit (before after : List Node) (span : Span)
  | classDef (symbol ctor : Symbol) (before after : List Node) (span : Span)
  | funcDef (symbol : Symbol) (params : List String) (before after : List Node) (span : Span)
  | protectedBody (clauses : List Clause) (finalizer : Node) (span : Span)
  | handler (body : Node) (before : List Clause) (part : ClausePart) (after : List Clause)
      (finalizer : Node) (span : Span)
  | inFinalizer (body : Node) (clauses : List Clause) (span : Span)
  | clause (part : ClausePart)
  | raise (type : Option ExceptionType) (span : Span)
  | invoke (how : Invocation) (symbol : Symbol) (before after : List Node)
      (type : Option ExceptionType) (span : Span)
  | plain (form : Form) (before after : List Node) (span : Span)

namespace Layer

def fill : Layer → Node → Node
  | unit before after span, n => .unit (before ++ n :: after) span
  | classDef symbol ctor before after span, n => .classDef symbol ctor (before ++ n :: after) span
  | funcDef symbol params before after span, n =>
    .funcDef symbol params (before ++ n :: after) span
  | protectedBody clauses finalizer span, n => .tryCatch n clauses finalizer span
  | handler body before part after finalizer span, n =>
    .tryCatch body (before ++ part.fill n :: after) finalizer span
  | inFinalizer body clauses span, n => .tryCatch body clauses n span
  | clause part, n => .clause (part.fill n)
  | raise type span, n => .raise n type span
  | invoke how symbol before after type span, n =>
    .invoke how symbol (before ++ n :: after) type span
  | plain form before after span, n => .plain form (before ++ n :: after) span

/-- The layer belongs to a propagation point. -/
def isPoint : Layer → Bool
  | unit .. | classDef .. | funcDef .. => true
  | _ => false

/-- The walk goes into the layer. -/
def isOpen : Layer → Bool
  | classDef symbol ctor _ _ _ => !symbol.isExempt && !ctor.isExempt
  | funcDef symbol _ _ _ _ => !symbol.isExempt
  | _ => true

/-- The clauses that protect the hole. -/
def protecting : Layer → List Clause
  | protectedBody clauses _ _ => clauses
  | _ => []

/-- What stands behind the hole inside the layer. -/
def behind : Layer → List Node
  | unit _ after _ | classDef _ _ _ after _ | funcDef _ _ _ after _ | invoke _ _ _ after _ _
  | plain _ _ after _ => after
  | protectedBody clauses finalizer _ => clauses.map .clause ++ [finalizer]
  | handler _ _ part after finalizer _ => part.rest ++ (after.map .clause ++ [finalizer])
  | clause part => part.rest
  | inFinalizer .. | raise .. => []

/-- What a propagation point declares. -/
def declared (r : Rules) : Layer → List ExceptionType
  | classDef symbol ctor _ _ span => Declared.constructorTypes symbol ctor span
  | funcDef symbol _ _ _ span => Declared.definitionTypes r.overridden symbol span
  | _ => []

/-- The tree around a place, with a node in it. -/
def fillAll : List Layer → Node → Node
  | [], n => n
  | l :: layers, n => fillAll layers (l.fill n)

/-- The layers that share a frame with the place, the innermost propagation point included. -/
def sharing : List Layer → List Layer
  | [] => []
  | l :: layers => if l.isPoint then [l] else l :: sharing layers

/-- What the innermost propagation point around the place declares. The root declares nothing. -/
def declaredAround (r : Rules) : List Layer → List ExceptionType
  | [] => []
  | l :: layers => if l.isPoint then l.declared r else declaredAround r layers

theorem mem_sharing_cons (l : Layer) (layers : List Layer) : l ∈ sharing (l :: layers) := by
  rw [sharing]
  split
  · exact List.mem_singleton_self l
  · exact List.mem_cons_self

theorem fillAll_concat (layers : List Layer) (l : Layer) (n : Node) :
    fillAll (layers ++ [l]) n = l.fill (fillAll layers n) := by
  induction layers generalizing n with
  | nil => rfl
  | cons first layers ih => exact ih (first.fill n)

/-- The outermost layer around a place in a clause is one of the clause's parts. -/
theorem exists_part_of_fillAll {layers : List Layer} {n : Node} {c : Clause}
    (h : fillAll layers n = .clause c) (hn : n ≠ .clause c) :
    ∃ inner part, layers = inner ++ [.clause part] ∧ part.fill (fillAll inner n) = c := by
  rcases List.eq_nil_or_concat layers with rfl | ⟨inner, l, rfl⟩
  · exact absurd h hn
  · rw [List.concat_eq_append, fillAll_concat] at h
    cases l with
    | clause part => exact ⟨inner, part, List.concat_eq_append, Node.clause.inj h⟩
    | _ => cases h

end Layer

namespace Node

/-- A node directly inside another one fills a layer that the walk goes into. A clause of a catch
point does so through its parts. -/
theorem exists_layer_of_mem_visited {n m : Node} (hm : m ∈ n.visited) :
    (∃ l : Layer, l.isOpen = true ∧ l.fill m = n) ∨
      ∃ c, m = .clause c ∧ ∀ (part : ClausePart) (k : Node), part.fill k = c →
        ∃ l : Layer, l.isOpen = true ∧ l.fill k = n := by
  cases n with
  | absent => cases hm
  | foreign typeName => cases hm
  | unit body span =>
    obtain ⟨before, after, rfl⟩ := List.append_of_mem hm
    exact Or.inl ⟨.unit before after span, rfl, rfl⟩
  | classDef symbol ctor body span =>
    rw [visited] at hm
    split at hm
    · cases hm
    · rename_i hopen
      obtain ⟨before, after, rfl⟩ := List.append_of_mem hm
      refine Or.inl ⟨.classDef symbol ctor before after span, ?_, rfl⟩
      simpa [Layer.isOpen] using hopen
  | funcDef symbol params body span =>
    rw [visited] at hm
    split at hm
    · cases hm
    · rename_i hopen
      obtain ⟨before, after, rfl⟩ := List.append_of_mem hm
      refine Or.inl ⟨.funcDef symbol params before after span, ?_, rfl⟩
      simpa [Layer.isOpen] using hopen
  | tryCatch body clauses finalizer span =>
    change m ∈ body :: (clauses.map .clause ++ present [finalizer]) at hm
    rw [List.mem_cons, List.mem_append, List.mem_map] at hm
    rcases hm with rfl | ⟨c, hc, rfl⟩ | hfinalizer
    · exact Or.inl ⟨.protectedBody clauses finalizer span, rfl, rfl⟩
    · refine Or.inr ⟨c, rfl, fun part k hpart => ?_⟩
      obtain ⟨before, after, rfl⟩ := List.append_of_mem hc
      refine ⟨.handler body before part after finalizer span, rfl, ?_⟩
      rw [Layer.fill, hpart]
    · rw [List.mem_singleton.mp (mem_present.mp hfinalizer).1]
      exact Or.inl ⟨.inFinalizer body clauses span, rfl, rfl⟩
  | clause c =>
    obtain ⟨pattern, guard, body, span⟩ := c
    have hpart : m ∈ [pattern, guard, body] := (mem_present.mp hm).1
    simp only [List.mem_cons, List.not_mem_nil, or_false] at hpart
    rcases hpart with rfl | rfl | rfl
    · exact Or.inl ⟨.clause (.inPattern guard body span), rfl, rfl⟩
    · exact Or.inl ⟨.clause (.inGuard pattern body span), rfl, rfl⟩
    · exact Or.inl ⟨.clause (.inBody pattern guard span), rfl, rfl⟩
  | raise value type span =>
    rw [List.mem_singleton.mp hm]
    exact Or.inl ⟨.raise type span, rfl, rfl⟩
  | invoke how symbol operands type span =>
    obtain ⟨before, after, rfl⟩ := List.append_of_mem hm
    exact Or.inl ⟨.invoke how symbol before after type span, rfl, rfl⟩
  | plain form parts span =>
    obtain ⟨before, after, rfl⟩ := List.append_of_mem hm
    exact Or.inl ⟨.plain form before after span, rfl, rfl⟩

/-- The node stands inside these layers of the tree, and the walk goes into all of them. -/
structure HoldsAt (tree : Node) (layers : List Layer) (site : Node) : Prop where
  isOpen : ∀ l ∈ layers, l.isOpen = true
  fillAll : Layer.fillAll layers site = tree

/-- Every node that a walk comes to has a place, unless it is a clause. -/
theorem Reached.exists_place {tree site : Node} (h : tree.Reached site)
    (hsite : ∀ c, site ≠ .clause c) : ∃ layers, tree.HoldsAt layers site := by
  -- From the tree inwards: each step adds a layer on the outside.
  induction h using Relation.ReflTransGen.head_induction_on with
  | refl => exact ⟨[], List.forall_mem_nil _, rfl⟩
  | head hm _ ih =>
    obtain ⟨layers, hopen, hfill⟩ := ih
    rcases exists_layer_of_mem_visited hm with ⟨l, hl, hn⟩ | ⟨c, rfl, hlayer⟩
    · refine ⟨layers ++ [l], ?_, ?_⟩
      · exact List.forall_mem_append.mpr ⟨hopen, List.forall_mem_singleton.mpr hl⟩
      · rw [Layer.fillAll_concat, hfill, hn]
    · obtain ⟨inner, part, rfl, hpart⟩ := Layer.exists_part_of_fillAll hfill (hsite c)
      obtain ⟨l, hl, hn⟩ := hlayer part _ hpart
      refine ⟨inner ++ [l], ?_, ?_⟩
      · have hinner := (List.forall_mem_append.mp hopen).1
        exact List.forall_mem_append.mpr ⟨hinner, List.forall_mem_singleton.mpr hl⟩
      · rw [Layer.fillAll_concat, hn]

end Node

end CheckedExceptions
