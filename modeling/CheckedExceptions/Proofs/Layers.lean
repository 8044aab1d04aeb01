import CheckedExceptions.Proofs.Catches
import CheckedExceptions.Proofs.Places
import CheckedExceptions.Proofs.Walk

/-!
What a layer makes of the node that fills its hole. From outside, a node shows only its face:
whether it is there, the type written on it and the type it tests for as a pattern. Nodes with the
same face can take each other's place; the findings of a layer are then those of the node between
findings that do not depend on it, and what leaves the layer depends on the trace of the node only.
-/
namespace CheckedExceptions

open Event

/-- The type that a node tests for as the pattern of a clause. -/
def Node.tested? : Node → Option ExceptionType
  | plain (.typePattern type _) _ _ => some type
  | _ => none

theorem Clause.caught?_eq (c : Clause) :
    c.caught? = if c.guard.isAbsent then c.pattern.tested? else none := by
  obtain ⟨pattern, guard, body, span⟩ := c
  cases guard with
  | absent =>
    cases pattern with
    | plain form parts span => cases form <;> rfl
    | _ => rfl
  | _ => rfl

/-- What stands around the nodes cannot tell them apart. -/
structure Node.SameFace (n n' : Node) : Prop where
  ownType : n.ownType? = n'.ownType?
  isAbsent : n.isAbsent = n'.isAbsent
  tested : n.tested? = n'.tested?

theorem Node.SameFace.refl (n : Node) : n.SameFace n := ⟨rfl, rfl, rfl⟩

theorem Node.SameFace.thrownType {n n' : Node} (h : n.SameFace n') (type : Option ExceptionType) :
    n.thrownType? type = n'.thrownType? type := by
  unfold Node.thrownType?
  rw [h.ownType]

theorem Node.SameFace.caught {n n' : Node} (h : n.SameFace n') (part : ClausePart) :
    (part.fill n).caught? = (part.fill n').caught? := by
  rw [Clause.caught?_eq, Clause.caught?_eq]
  cases part with
  | inPattern guard body span =>
    change (if guard.isAbsent then n.tested? else none) =
      if guard.isAbsent then n'.tested? else none
    rw [h.tested]
  | inGuard pattern body span =>
    change (if n.isAbsent then pattern.tested? else none) =
      if n'.isAbsent then pattern.tested? else none
    rw [h.isAbsent]
  | inBody pattern guard span => rfl

/-- What is caught by clauses of which one has a hole does not depend on what fills it. -/
theorem Node.SameFace.types {n n' : Node} (h : n.SameFace n') (before : List Clause)
    (part : ClausePart) (after : List Clause) :
    Clause.types (before ++ part.fill n :: after) =
      Clause.types (before ++ part.fill n' :: after) := by
  simp only [Clause.types, List.filterMap_append, List.filterMap_cons, h.caught part]

section Traces

variable (bases : Symbol → List Symbol) (r : Rules)

theorem Node.traceAll_append (ns ns' : List Node) :
    Node.traceAll bases (ns ++ ns') = Node.traceAll bases ns ++ Node.traceAll bases ns' := by
  induction ns with
  | nil => rfl
  | cons n ns ih => rw [List.cons_append, Node.traceAll, Node.traceAll, ih, List.append_assoc]

theorem Node.findingsAll_append (ns ns' : List Node) :
    Node.findingsAll r (ns ++ ns') = Node.findingsAll r ns ++ Node.findingsAll r ns' := by
  induction ns with
  | nil => rfl
  | cons n ns ih =>
    rw [List.cons_append, Node.findingsAll, Node.findingsAll, ih, List.append_assoc]

theorem Clause.traceAll_append (cs cs' : List Clause) :
    Clause.traceAll bases (cs ++ cs') = Clause.traceAll bases cs ++ Clause.traceAll bases cs' := by
  induction cs with
  | nil => rfl
  | cons c cs ih => rw [List.cons_append, Clause.traceAll, Clause.traceAll, ih, List.append_assoc]

theorem Clause.findingsAll_append (cs cs' : List Clause) :
    Clause.findingsAll r (cs ++ cs') = Clause.findingsAll r cs ++ Clause.findingsAll r cs' := by
  induction cs with
  | nil => rfl
  | cons c cs ih =>
    rw [List.cons_append, Clause.findingsAll, Clause.findingsAll, ih, List.append_assoc]

theorem Node.traceAll_map_clause (cs : List Clause) :
    Node.traceAll bases (cs.map .clause) = Clause.traceAll bases cs := by
  induction cs with
  | nil => rfl
  | cons c cs ih => rw [List.map_cons, Node.traceAll, Node.trace, Clause.traceAll, ih]

theorem Node.traceAll_singleton (n : Node) : Node.traceAll bases [n] = n.trace bases := by
  rw [Node.traceAll, Node.traceAll, List.append_nil]

namespace ClausePart

/-- The parts of the clause in front of the hole. -/
def front : ClausePart → List Node
  | inPattern _ _ _ => []
  | inGuard pattern _ _ => [pattern]
  | inBody pattern guard _ => [pattern, guard]

theorem trace_fill (part : ClausePart) (n : Node) :
    (part.fill n).trace bases = Node.traceAll bases part.front ++
      (n.trace bases ++ Node.traceAll bases part.rest) := by
  cases part <;> simp [fill, front, rest, Clause.trace, Node.traceAll]

theorem findings_fill (part : ClausePart) (n : Node) :
    (part.fill n).findings r = Node.findingsAll r part.front ++
      (n.findings r ++ Node.findingsAll r part.rest) := by
  cases part <;> simp [fill, front, rest, Clause.findings, Node.findingsAll]

theorem sound_fill (part : ClausePart) (n : Node) :
    (Node.clause (part.fill n)).Sound ↔
      (∀ m ∈ part.front, m.Sound) ∧ n.Sound ∧ ∀ m ∈ part.rest, m.Sound := by
  cases part <;> simp [fill, front, rest, Node.sound_clause, and_assoc]

end ClausePart

namespace Layer

/-- The trace of the layer's own frame, as far as the layer goes. -/
def content (n : Node) : Layer → List Event
  | unit before after _ | classDef _ _ before after _ | funcDef _ _ before after _ =>
    Node.traceAll bases (before ++ n :: after)
  | l => (l.fill n).trace bases

theorem traceAll_around (before after : List Node) (n : Node) :
    Node.traceAll bases (before ++ n :: after) =
      Node.traceAll bases before ++ (n.trace bases ++ Node.traceAll bases after) := by
  rw [Node.traceAll_append, Node.traceAll]

/-- In the frame of a layer, the trace of what fills the hole stands between events that only depend
on its face. Behind it, only the clauses that protect the hole and what stands behind the hole catch
anything. -/
theorem content_split (l : Layer) (n : Node) :
    ∃ pre post,
      caughtIn post = Clause.types l.protecting ++ caughtIn (Node.traceAll bases l.behind) ∧
      ∀ n', n.SameFace n' → l.content bases n' = pre ++ (n'.trace bases ++ post) := by
  cases l with
  | unit before after span => exact ⟨_, _, rfl, fun n' _ => traceAll_around bases before after n'⟩
  | classDef symbol ctor before after span =>
    exact ⟨_, _, rfl, fun n' _ => traceAll_around bases before after n'⟩
  | funcDef symbol params before after span =>
    exact ⟨_, _, rfl, fun n' _ => traceAll_around bases before after n'⟩
  | protectedBody clauses finalizer span =>
    refine ⟨[], .catches (Clause.types clauses) ::
      (Clause.traceAll bases clauses ++ finalizer.trace bases), ?_, fun n' _ => ?_⟩
    · rw [behind, Node.traceAll_append, Node.traceAll_map_clause, Node.traceAll_singleton]
      rfl
    · simp [content, fill, Node.trace]
  | handler body before part after finalizer span =>
    refine ⟨body.trace bases ++ .catches (Clause.types (before ++ part.fill n :: after)) ::
      (Clause.traceAll bases before ++ Node.traceAll bases part.front),
      Node.traceAll bases part.rest ++ (Clause.traceAll bases after ++ finalizer.trace bases),
      ?_, fun n' hface => ?_⟩
    · rw [behind, Node.traceAll_append, Node.traceAll_append, Node.traceAll_map_clause,
        Node.traceAll_singleton]
      rfl
    · rw [hface.types before part after]
      simp [content, fill, Node.trace, Clause.traceAll_append, Clause.traceAll, part.trace_fill]
  | inFinalizer body clauses span =>
    refine ⟨body.trace bases ++ .catches (Clause.types clauses) :: Clause.traceAll bases clauses,
      [], rfl, fun n' _ => ?_⟩
    simp [content, fill, Node.trace]
  | clause part =>
    refine ⟨Node.traceAll bases part.front, Node.traceAll bases part.rest, rfl, fun n' _ => ?_⟩
    simp [content, fill, Node.trace, part.trace_fill]
  | raise type span =>
    refine ⟨[], (n.thrownType? type).toList.map fun t => .throws ⟨span, t⟩, caughtIn_throws _ _,
      fun n' hface => ?_⟩
    simp [content, fill, Node.trace, hface.thrownType type]
  | invoke how symbol before after type span =>
    refine ⟨Node.traceAll bases before, Node.traceAll bases after ++
      (Declared.thrownBy bases symbol span).map fun t => .throws ⟨span, t⟩, ?_, fun n' _ => ?_⟩
    · rw [caughtIn_append, caughtIn_throws, List.append_nil]
      rfl
    · simp [content, fill, Node.trace, traceAll_around]
  | plain form before after span =>
    refine ⟨Node.traceAll bases before, Node.traceAll bases after, rfl, fun n' _ => ?_⟩
    simp [content, fill, Node.trace, traceAll_around]

theorem trace_fill {l : Layer} (h : l.isPoint = false) (n : Node) :
    (l.fill n).trace bases = l.content bases n := by
  cases l with
  | unit => simp [isPoint] at h
  | classDef => simp [isPoint] at h
  | funcDef => simp [isPoint] at h
  | _ => rfl

/-- A propagation point keeps its content to itself. -/
theorem trace_fill_point {l : Layer} (h : l.isPoint = true) (n : Node) :
    (l.fill n).trace bases = [] := by
  cases l with
  | unit => rw [fill, Node.trace]
  | classDef => rw [fill, Node.trace]
  | funcDef => rw [fill, Node.trace]
  | _ => cases h

/-- What is reported when the layer is left, if it is a propagation point. -/
def leaving (n : Node) (l : Layer) : List Finding :=
  if l.isPoint then unhandled r.classification (l.declared r) (l.content r.overridden n) else []

theorem findingsAll_around (before after : List Node) (n : Node) :
    Node.findingsAll r (before ++ n :: after) =
      Node.findingsAll r before ++ (n.findings r ++ Node.findingsAll r after) := by
  rw [Node.findingsAll_append, Node.findingsAll]

/-- The findings of what fills a layer stand between findings that do not depend on it. Only what is
reported when the layer is left comes after them. -/
theorem findings_around (l : Layer) (hopen : l.isOpen = true) :
    ∃ before after, ∀ n, (l.fill n).findings r =
      before ++ (n.findings r ++ (after ++ l.leaving r n)) := by
  cases l with
  | unit front back span =>
    refine ⟨Node.findingsAll r front, Node.findingsAll r back, fun n => ?_⟩
    simp [fill, Node.findings, findingsAll_around, leaving, isPoint, declared, content]
  | classDef symbol ctor front back span =>
    simp only [isOpen, Bool.and_eq_true, Bool.not_eq_true'] at hopen
    refine ⟨Declared.constructorFindings symbol ctor span ++ Node.findingsAll r front,
      Node.findingsAll r back, fun n => ?_⟩
    simp [fill, Node.findings, hopen.1, hopen.2, findingsAll_around, leaving, isPoint, declared,
      content]
  | funcDef symbol params front back span =>
    simp only [isOpen, Bool.not_eq_true'] at hopen
    refine ⟨Node.findingsAll r front, Node.findingsAll r back ++
      Declared.definitionFindings r.overridden r.classification.isSubtype symbol span, fun n => ?_⟩
    simp [fill, Node.findings, hopen, findingsAll_around, leaving, isPoint, declared, content]
  | protectedBody clauses finalizer span =>
    refine ⟨[], Clause.findingsAll r clauses ++ finalizer.findings r, fun n => ?_⟩
    simp [fill, Node.findings, leaving, isPoint]
  | handler body front part back finalizer span =>
    refine ⟨body.findings r ++ (Clause.findingsAll r front ++ Node.findingsAll r part.front),
      Node.findingsAll r part.rest ++ (Clause.findingsAll r back ++ finalizer.findings r),
      fun n => ?_⟩
    simp [fill, Node.findings, Clause.findingsAll_append, Clause.findingsAll,
      part.findings_fill, leaving, isPoint]
  | inFinalizer body clauses span =>
    refine ⟨body.findings r ++ Clause.findingsAll r clauses, [], fun n => ?_⟩
    simp [fill, Node.findings, leaving, isPoint]
  | clause part =>
    refine ⟨Node.findingsAll r part.front, Node.findingsAll r part.rest, fun n => ?_⟩
    simp [fill, Node.findings, part.findings_fill, leaving, isPoint]
  | raise type span =>
    refine ⟨[], [], fun n => ?_⟩
    simp [fill, Node.findings, leaving, isPoint]
  | invoke how symbol front back type span =>
    refine ⟨Node.findingsAll r front, Node.findingsAll r back ++
      Declared.invocationFindings r.overridden symbol span, fun n => ?_⟩
    simp [fill, Node.findings, findingsAll_around, leaving, isPoint]
  | plain form front back span =>
    refine ⟨Node.findingsAll r front, Node.findingsAll r back, fun n => ?_⟩
    simp [fill, Node.findings, findingsAll_around, leaving, isPoint]

/-- Nothing of what fills a layer is found if the walk does not go into the layer. -/
theorem findings_fill_closed {l : Layer} (h : l.isOpen = false) (n n' : Node) :
    (l.fill n).findings r = (l.fill n').findings r := by
  cases l with
  | classDef symbol ctor before after span =>
    simp only [fill, Node.findings]
    cases hsymbol : symbol.isExempt with
    | true => rfl
    | false =>
      have hctor : ctor.isExempt = true := by simpa [isOpen, hsymbol] using h
      simp [hctor]
  | funcDef symbol params before after span =>
    have hsymbol : symbol.isExempt = true := by simpa [isOpen] using h
    simp [fill, Node.findings, hsymbol]
  | _ => cases h

/-- A layer has the same face whatever fills it. -/
theorem sameFace_fill (l : Layer) (n n' : Node) : (l.fill n).SameFace (l.fill n') := by
  cases l with
  | plain form before after span => exact ⟨by cases form <;> rfl, rfl, by cases form <;> rfl⟩
  | _ => exact ⟨rfl, rfl, rfl⟩

/-- A layer can be walked over with another node of the same face in its hole. -/
theorem sound_fill_of_sameFace {n n' : Node} (hface : n.SameFace n') (hn : n.Sound → n'.Sound)
    (l : Layer) (h : (l.fill n).Sound) : (l.fill n').Sound := by
  have haround : ∀ before after : List Node, (∀ m ∈ before ++ n :: after, m.Sound) →
      ∀ m ∈ before ++ n' :: after, m.Sound := by
    intro before after hall
    rw [List.forall_mem_append, List.forall_mem_cons] at hall ⊢
    exact ⟨hall.1, hn hall.2.1, hall.2.2⟩
  have hpart : ∀ part : ClausePart, (Node.clause (part.fill n)).Sound →
      (Node.clause (part.fill n')).Sound := by
    intro part hclause
    rw [part.sound_fill] at hclause ⊢
    exact ⟨hclause.1, hn hclause.2.1, hclause.2.2⟩
  cases l with
  | unit before after span =>
    rw [fill, Node.sound_unit] at h ⊢
    exact haround before after h
  | classDef symbol ctor before after span =>
    rw [fill, Node.sound_classDef] at h ⊢
    intro hsymbol hctor
    exact haround before after (h hsymbol hctor)
  | funcDef symbol params before after span =>
    rw [fill, Node.sound_funcDef] at h ⊢
    intro hsymbol
    exact haround before after (h hsymbol)
  | protectedBody clauses finalizer span =>
    rw [fill, Node.sound_tryCatch] at h ⊢
    exact ⟨hn h.1, h.2⟩
  | handler body before part after finalizer span =>
    rw [fill, Node.sound_tryCatch, List.forall_mem_append, List.forall_mem_cons] at h ⊢
    obtain ⟨hbody, ⟨hbefore, hclause, hafter⟩, hfinalizer⟩ := h
    exact ⟨hbody, ⟨hbefore, hpart part hclause, hafter⟩, hfinalizer⟩
  | inFinalizer body clauses span =>
    rw [fill, Node.sound_tryCatch] at h ⊢
    exact ⟨h.1, h.2.1, hn h.2.2⟩
  | clause part => exact hpart part h
  | raise type span =>
    rw [fill, Node.sound_raise] at h ⊢
    exact ⟨hface.thrownType type ▸ h.1, hn h.2⟩
  | invoke how symbol before after type span =>
    rw [fill, Node.sound_invoke] at h ⊢
    exact haround before after h
  | plain form before after span =>
    rw [fill, Node.sound_plain] at h ⊢
    exact haround before after h

theorem sound_fillAll_of_sameFace {n n' : Node} (hface : n.SameFace n') (hn : n.Sound → n'.Sound)
    (layers : List Layer) (h : (fillAll layers n).Sound) : (fillAll layers n').Sound := by
  induction layers generalizing n n' with
  | nil => exact hn h
  | cons l layers ih =>
    exact ih (l.sameFace_fill n n') (sound_fill_of_sameFace hface hn l) h

end Layer

end Traces

end CheckedExceptions
