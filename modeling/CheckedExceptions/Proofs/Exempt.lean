import CheckedExceptions.Proofs.Layers

/-!
What stands in an exempt part of a tree has no influence on a check. Exempt parts are the body of an
exempt definition, the body and the constructor of an exempt class, and the body of a class with an
exempt constructor. A walk over a tree does, step by step, what it does over the tree with nothing
left in these parts; so two trees that differ only there cannot be told apart.
-/
namespace CheckedExceptions

mutual

/-- The tree with nothing left in its exempt parts. The constructor of an exempt class is one of
them; the symbol of the class stands in its place. -/
def Node.pruned : Node → Node
  | .absent => .absent
  | .foreign typeName => .foreign typeName
  | .unit body span => .unit (Node.prunedAll body) span
  | .classDef symbol ctor body span =>
    if symbol.isExempt then .classDef symbol symbol [] span
    else if ctor.isExempt then .classDef symbol ctor [] span
    else .classDef symbol ctor (Node.prunedAll body) span
  | .funcDef symbol params body span =>
    if symbol.isExempt then .funcDef symbol params [] span
    else .funcDef symbol params (Node.prunedAll body) span
  | .tryCatch body clauses finalizer span =>
    .tryCatch body.pruned (Clause.prunedAll clauses) finalizer.pruned span
  | .clause c => .clause c.pruned
  | .raise value type span => .raise value.pruned type span
  | .invoke how symbol operands type span =>
    .invoke how symbol (Node.prunedAll operands) type span
  | .plain form parts span => .plain form (Node.prunedAll parts) span

def Node.prunedAll : List Node → List Node
  | [] => []
  | n :: ns => n.pruned :: Node.prunedAll ns

def Clause.pruned : Clause → Clause
  | .mk pattern guard body span => .mk pattern.pruned guard.pruned body.pruned span

def Clause.prunedAll : List Clause → List Clause
  | [] => []
  | c :: cs => c.pruned :: Clause.prunedAll cs

end

theorem Node.sameFace_pruned (n : Node) : n.pruned.SameFace n := by
  cases n with
  | classDef symbol ctor body span =>
    rw [pruned]
    split
    · exact ⟨rfl, rfl, rfl⟩
    · split <;> exact ⟨rfl, rfl, rfl⟩
  | funcDef symbol params body span =>
    rw [pruned]
    split <;> exact ⟨rfl, rfl, rfl⟩
  | plain form parts span => exact ⟨by cases form <;> rfl, rfl, by cases form <;> rfl⟩
  | _ => exact ⟨rfl, rfl, rfl⟩

namespace Clause

theorem caught?_pruned (c : Clause) : c.pruned.caught? = c.caught? := by
  obtain ⟨pattern, guard, body, span⟩ := c
  calc (mk pattern.pruned guard.pruned body.pruned span).caught?
    _ = (mk pattern guard.pruned body.pruned span).caught? :=
      pattern.sameFace_pruned.caught (.inPattern guard.pruned body.pruned span)
    _ = (mk pattern guard body.pruned span).caught? :=
      guard.sameFace_pruned.caught (.inGuard pattern body.pruned span)
    _ = (mk pattern guard body span).caught? := rfl

theorem prunedAll_eq_map (cs : List Clause) : prunedAll cs = cs.map pruned := by
  induction cs with
  | nil => rfl
  | cons c cs ih => rw [prunedAll, ih, List.map_cons]

end Clause

namespace Flow

theorem catchPoint_pruned (r : Rules) (clauses : List Clause) :
    catchPoint r (Clause.prunedAll clauses) = catchPoint r clauses := by
  have hcaught : Clause.caught? ∘ Clause.pruned = Clause.caught? :=
    funext Clause.caught?_pruned
  have hdecidable : Clause.isDecidable ∘ Clause.pruned = Clause.isDecidable :=
    funext fun c => congrArg Option.isSome c.caught?_pruned
  have htypes : Clause.caughtTypes (clauses.map Clause.pruned) = Clause.caughtTypes clauses := by
    rw [Clause.caughtTypes, Clause.caughtTypes, List.filterMap_map, hcaught]
  rw [Clause.prunedAll_eq_map, catchPoint, catchPoint, htypes, List.countP_map, hdecidable,
    List.length_map]

mutual

/-- A walk never looks into an exempt part. -/
theorem walk_pruned (r : Rules) : ∀ n : Node, walk r n.pruned = walk r n
  | .absent | .foreign _ => rfl
  | .unit body span => by
    rw [Node.pruned, walk, walk, walkAll_pruned r body]
  | .classDef symbol ctor body span => by
    rw [Node.pruned]
    split
    · rename_i hsymbol
      simp only [walk, hsymbol, ↓reduceIte]
    · split
      · rename_i hctor
        simp only [walk, hctor, ↓reduceIte]
      · rw [walk, walk, walkAll_pruned r body]
  | .funcDef symbol params body span => by
    rw [Node.pruned]
    split
    · rename_i hsymbol
      simp only [walk, hsymbol, ↓reduceIte]
    · rw [walk, walk, walkAll_pruned r body]
  | .tryCatch body clauses finalizer span => by
    rw [Node.pruned, walk, walk, walk_pruned r body, catchPoint_pruned,
      walkClauses_pruned r clauses, walk_pruned r finalizer]
  | .clause c => by
    rw [Node.pruned, walk, walk, walkClause_pruned r c]
  | .raise value type span => by
    rw [Node.pruned, walk, walk, walk_pruned r value, value.sameFace_pruned.thrownType type]
  | .invoke how symbol operands type span => by
    rw [Node.pruned, walk, walk, walkAll_pruned r operands]
  | .plain form parts span => by
    rw [Node.pruned, walk, walk, walkAll_pruned r parts]

theorem walkAll_pruned (r : Rules) : ∀ ns : List Node, walkAll r (Node.prunedAll ns) = walkAll r ns
  | [] => rfl
  | n :: ns => by
    rw [Node.prunedAll, walkAll, walkAll, walk_pruned r n, walkAll_pruned r ns]

theorem walkClause_pruned (r : Rules) : ∀ c : Clause, walkClause r c.pruned = walkClause r c
  | .mk pattern guard body span => by
    rw [Clause.pruned, walkClause, walkClause, walk_pruned r pattern, walk_pruned r guard,
      walk_pruned r body]

theorem walkClauses_pruned (r : Rules) :
    ∀ cs : List Clause, walkClauses r (Clause.prunedAll cs) = walkClauses r cs
  | [] => rfl
  | c :: cs => by
    rw [Clause.prunedAll, walkClauses, walkClauses, walkClause_pruned r c, walkClauses_pruned r cs]

end

theorem run_pruned (r : Rules) (tree : Node) : run r tree.pruned = run r tree := by
  rw [run, run, walk_pruned]

end Flow

/-- Two trees that are the same outside their exempt parts have the same run from every state: the
same findings in the same order and the same log, or the same failure. -/
theorem exempt_parts_do_not_interfere (r : Rules) (tree tree' : Node)
    (h : tree.pruned = tree'.pruned) (s : FlowState) : Flow.run r tree s = Flow.run r tree' s := by
  rw [← Flow.run_pruned r tree, h, Flow.run_pruned]

/-- A protected exempt definition, an exempt class and a class with an exempt constructor, with the
given nodes in all three bodies, in front of a raise. -/
def skipping (ctor : Symbol) (body : List Node) : Node :=
  let exempt : List Marker := [⟨⟨"unchecked", [], []⟩, {}⟩]
  .unit [.tryCatch (.funcDef ⟨"f", .function, exempt⟩ [] body {}) [ignoring "Error"] .absent {},
    .classDef ⟨"C", .classType, exempt⟩ ctor body {},
    .classDef ⟨"D", .classType, []⟩ ⟨"D.<init>", .constructor, exempt⟩ body {},
    raiseAt 9 "InterruptedException"] {}

/-- A value that is no node, an untyped raise and a declaration that cannot be read are as good as
nothing in exempt parts. -/
theorem exempt_parts_do_not_interfere_when_malformed :
    let unreadable : Symbol := ⟨"C.<init>", .constructor, [⟨⟨"throws", [], []⟩, {}⟩]⟩
    let malformed := skipping unreadable
      [.foreign "int", .raise .absent none {}, .invoke .new unreadable [] none {}]
    let empty := skipping ⟨"C.<init>", .constructor, []⟩ []
    malformed.pruned = empty.pruned ∧
      Flow.Finds standardRules malformed
        [.unhandled { line := some 9 } ⟨"InterruptedException"⟩] := by
  intro unreadable malformed empty
  have hpruned : malformed.pruned = empty.pruned := rfl
  refine ⟨hpruned, fun s => ?_⟩
  rw [exempt_parts_do_not_interfere standardRules malformed empty hpruned s]
  have hsound : empty.Sound := by
    simp [empty, skipping, Node.sound_unit, Node.sound_tryCatch, Node.sound_funcDef,
      Node.sound_classDef, Node.sound_absent, sound_ignoring, sound_raiseAt]
  exact Flow.finds_of_sound standardRules hsound s

end CheckedExceptions
