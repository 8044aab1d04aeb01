import CheckedExceptions.Declared
import CheckedExceptions.Node
import Mathlib.Logic.Relation

/-!
Which nodes of a tree a walk comes to. It does not go into an exempt definition, an exempt class or
a class with an exempt constructor. A tree is sound if every node that is reached is a node of the
language, and every raise that is reached throws something of a known type.
-/
namespace CheckedExceptions.Node

/-- The nodes directly inside a node that a walk comes to. -/
def visited : Node → List Node
  | classDef symbol ctor body _ => if symbol.isExempt || ctor.isExempt then [] else body
  | funcDef symbol _ body _ => if symbol.isExempt then [] else body
  | n => n.children

/-- The tree itself and all nodes that a walk over it comes to. -/
def Reached : Node → Node → Prop := Relation.ReflTransGen fun n m => m ∈ n.visited

/-- A node that can be walked over, whatever is inside it. -/
def IsProper : Node → Prop
  | foreign _ => False
  | raise value type _ => (value.thrownType? type).isSome
  | _ => True

def Sound (tree : Node) : Prop := ∀ n, tree.Reached n → n.IsProper

theorem sound_iff (tree : Node) :
    tree.Sound ↔ tree.IsProper ∧ ∀ m ∈ tree.visited, m.Sound := by
  constructor
  · intro h
    exact ⟨h tree .refl, fun m hm n hn => h n (.head hm hn)⟩
  · rintro ⟨hself, hinside⟩ n hn
    rcases hn.cases_head with rfl | ⟨m, hm, hmn⟩
    · exact hself
    · exact hinside m hm n hmn

theorem sound_iff_reached (tree : Node) :
    tree.Sound ↔ (∀ typeName, ¬ tree.Reached (.foreign typeName)) ∧
      ∀ value type span, tree.Reached (.raise value type span) →
        (value.thrownType? type).isSome := by
  constructor
  · intro h
    exact ⟨fun typeName hreach => h _ hreach, fun value type span hreach => h _ hreach⟩
  · rintro ⟨hnodes, htyped⟩ n hreach
    cases n with
    | foreign typeName => exact hnodes typeName hreach
    | raise value type span => exact htyped value type span hreach
    | _ => trivial

theorem mem_present {n : Node} {nodes : List Node} :
    n ∈ present nodes ↔ n ∈ nodes ∧ n ≠ .absent := by
  unfold present
  rw [List.mem_filter]
  cases n <;> simp [isAbsent]

theorem sound_absent : Sound .absent := by
  rw [sound_iff]
  exact ⟨trivial, by simp [visited, children]⟩

/-- A place that may be empty is sound if what stands there is. -/
theorem forall_present_sound (nodes : List Node) :
    (∀ n ∈ present nodes, n.Sound) ↔ ∀ n ∈ nodes, n.Sound := by
  constructor
  · intro h n hn
    by_cases habs : n = .absent
    · exact habs ▸ sound_absent
    · exact h n (mem_present.mpr ⟨hn, habs⟩)
  · intro h n hn
    exact h n (mem_present.mp hn).1

theorem sound_unit (body : List Node) (span : Span) :
    Sound (.unit body span) ↔ ∀ n ∈ body, n.Sound := by
  rw [sound_iff]
  simp [IsProper, visited, children]

theorem sound_classDef (symbol ctor : Symbol) (body : List Node) (span : Span) :
    Sound (.classDef symbol ctor body span) ↔
      (symbol.isExempt = false → ctor.isExempt = false → ∀ n ∈ body, n.Sound) := by
  rw [sound_iff]
  cases hsymbol : symbol.isExempt <;> cases hctor : ctor.isExempt <;>
    simp [IsProper, visited, hsymbol, hctor]

theorem sound_funcDef (symbol : Symbol) (params : List String) (body : List Node) (span : Span) :
    Sound (.funcDef symbol params body span) ↔ (symbol.isExempt = false → ∀ n ∈ body, n.Sound) := by
  rw [sound_iff]
  cases hsymbol : symbol.isExempt <;> simp [IsProper, visited, hsymbol]

theorem sound_clause (pattern guard body : Node) (span : Span) :
    Sound (.clause (.mk pattern guard body span)) ↔
      pattern.Sound ∧ guard.Sound ∧ body.Sound := by
  rw [sound_iff]
  simp [IsProper, visited, children, forall_present_sound]

theorem sound_tryCatch (body : Node) (clauses : List Clause) (finalizer : Node) (span : Span) :
    Sound (.tryCatch body clauses finalizer span) ↔
      body.Sound ∧ (∀ c ∈ clauses, Sound (.clause c)) ∧ finalizer.Sound := by
  rw [sound_iff]
  simp only [IsProper, visited, children, true_and, List.forall_mem_cons, List.cons_append,
    List.forall_mem_append, forall_present_sound, List.forall_mem_map]
  simp

theorem sound_raise (value : Node) (type : Option ExceptionType) (span : Span) :
    Sound (.raise value type span) ↔ (value.thrownType? type).isSome ∧ value.Sound := by
  rw [sound_iff]
  simp [IsProper, visited, children]

theorem sound_invoke (how : Invocation) (symbol : Symbol) (operands : List Node)
    (type : Option ExceptionType) (span : Span) :
    Sound (.invoke how symbol operands type span) ↔ ∀ n ∈ operands, n.Sound := by
  rw [sound_iff]
  simp [IsProper, visited, children]

theorem sound_plain (form : Form) (parts : List Node) (span : Span) :
    Sound (.plain form parts span) ↔ ∀ n ∈ parts, n.Sound := by
  rw [sound_iff]
  simp [IsProper, visited, children]

theorem not_sound_foreign (typeName : String) : ¬ Sound (.foreign typeName) := by
  intro h
  exact h _ .refl

end CheckedExceptions.Node
