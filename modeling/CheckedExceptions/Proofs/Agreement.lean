import CheckedExceptions.Proofs.Policy
import CheckedExceptions.Proofs.Typing.Admissible

/-!
Which types matter to a check. Of all types, a check only judges those that something in the tree
may throw or that a definition in it declares by itself: whether they are unchecked, and what they
are subtypes of. Two classifications that agree on these types find the same in the tree, however
they differ elsewhere.
-/
namespace CheckedExceptions

/-- Both classifications judge the type in the same way. -/
structure Classification.AgreeOn (c c' : Classification) (t : ExceptionType) : Prop where
  isUnchecked : c'.isUnchecked t = c.isUnchecked t
  isSubtype : ∀ u, c'.isSubtype t u = c.isSubtype t u

theorem Classification.AgreeOn.handles {c c' : Classification} {t : ExceptionType}
    (h : c.AgreeOn c' t) (types : List ExceptionType) : c'.handles types t = c.handles types t := by
  have hsame : c'.isSubtype t = c.isSubtype t := funext h.isSubtype
  rw [Classification.handles, Classification.handles, hsame]

/-- The same rules with another classification. -/
def Rules.withClassification (r : Rules) (c : Classification) : Rules := ⟨c, r.overridden⟩

namespace Event

variable {c c' : Classification}

theorem escaping_congr {trace : List Event} (h : ∀ x, .throws x ∈ trace → c.AgreeOn c' x.type)
    (declared : List ExceptionType) : escaping c' declared trace = escaping c declared trace := by
  induction trace with
  | nil => rfl
  | cons event later ih =>
    have hlater := ih fun x hx => h x (List.mem_cons_of_mem event hx)
    cases event with
    | catches types => exact hlater
    | throws x =>
      have hx := h x List.mem_cons_self
      simp only [escaping, hx.isUnchecked, hx.handles, hlater]

theorem unhandled_congr {trace : List Event} (h : ∀ x, .throws x ∈ trace → c.AgreeOn c' x.type)
    (declared : List ExceptionType) : unhandled c' declared trace = unhandled c declared trace := by
  rw [unhandled, unhandled, escaping_congr h]

end Event

namespace Declared

variable {bases : Symbol → List Symbol} {symbol : Symbol} {span : Span}

/-- A type that an invocation may throw is declared by its symbol or by an overridden one. -/
theorem declares_of_mem_thrownBy {t : ExceptionType} (h : t ∈ thrownBy bases symbol span) :
    symbol.Declares t ∨ ∃ b ∈ bases symbol, b.Declares t := by
  unfold thrownBy declarationOf at h
  cases hown : declaration [symbol] span symbol.qualifiedName with
  | error finding =>
    rw [hown] at h
    cases h
  | ok own =>
    cases hinherited : declaration (bases symbol) span symbol.qualifiedName with
    | error finding =>
      simp only [hown, hinherited] at h
      cases h
    | ok inherited =>
      simp only [hown, hinherited, List.mem_append] at h
      rcases h with h | h
      · obtain ⟨m, hm, hdeclares⟩ := (mem_read (read_of_declaration hown)).mp h
        rw [List.mem_singleton.mp hm] at hdeclares
        exact Or.inl hdeclares
      · exact Or.inr ((mem_read (read_of_declaration hinherited)).mp h)

theorem definitionFindings_congr {isSubtype isSubtype' : ExceptionType → ExceptionType → Bool}
    (h : ∀ t, symbol.Declares t → ∀ u, isSubtype' t u = isSubtype t u) :
    definitionFindings bases isSubtype' symbol span =
      definitionFindings bases isSubtype symbol span := by
  unfold definitionFindings declarationOf
  cases hown : declaration [symbol] span symbol.name with
  | error finding => rfl
  | ok own =>
    cases hinherited : declaration (bases symbol) span symbol.name with
    | error finding => rfl
    | ok inherited =>
      have hbeyond : typesBeyond isSubtype' own inherited =
          typesBeyond isSubtype own inherited := by
        apply List.filter_congr
        intro t ht
        obtain ⟨m, hm, hdeclares⟩ := (mem_read (read_of_declaration hown)).mp ht
        rw [List.mem_singleton.mp hm] at hdeclares
        rw [funext (h t hdeclares)]
      simp only [overrideFindings, hbeyond]

end Declared

namespace Node

/-- The types that the check judges at a node are among these. -/
def Judges (bases : Symbol → List Symbol) (P : ExceptionType → Prop) : Node → Prop
  | raise value type _ => ∀ t, value.thrownType? type = some t → P t
  | invoke _ symbol _ _ _ => ∀ t, symbol.Declares t ∨ (∃ b ∈ bases symbol, b.Declares t) → P t
  | funcDef symbol _ _ _ => ∀ t, symbol.Declares t → P t
  | _ => True

/-- The types that the check judges in a tree are among these. -/
def JudgesAll (bases : Symbol → List Symbol) (P : ExceptionType → Prop) (tree : Node) : Prop :=
  ∀ n, tree.Inside n → n.Judges bases P

variable {bases : Symbol → List Symbol} {P : ExceptionType → Prop}

theorem JudgesAll.child {n m : Node} (h : n.JudgesAll bases P) (hm : m ∈ n.children) :
    m.JudgesAll bases P :=
  fun k hk => h k (.head hm hk)

/-- A place that may be empty is as good as one that is not. -/
theorem JudgesAll.place {n : Node} (h : n.JudgesAll bases P) {nodes : List Node}
    (hchildren : present nodes ⊆ n.children) {m : Node} (hm : m ∈ nodes) : m.JudgesAll bases P := by
  by_cases habsent : m = .absent
  · intro k hk
    rw [habsent] at hk
    rcases hk.cases_head with rfl | ⟨j, hj, -⟩
    · trivial
    · cases hj
  · exact h.child (hchildren (mem_present.mpr ⟨hm, habsent⟩))

end Node

section Trees

variable {r : Rules} {c : Classification} {P : ExceptionType → Prop}

/-- The node finds the same under both classifications, and only throws types they agree on. -/
structure Node.Agrees (r : Rules) (c : Classification) (P : ExceptionType → Prop) (n : Node) :
    Prop where
  findings : n.findings (r.withClassification c) = n.findings r
  throws : ∀ x, .throws x ∈ n.trace r.overridden → P x.type

structure Node.AgreeAll (r : Rules) (c : Classification) (P : ExceptionType → Prop)
    (ns : List Node) : Prop where
  findings : Node.findingsAll (r.withClassification c) ns = Node.findingsAll r ns
  throws : ∀ x, .throws x ∈ Node.traceAll r.overridden ns → P x.type

structure Clause.AgreeAll (r : Rules) (c : Classification) (P : ExceptionType → Prop)
    (cs : List Clause) : Prop where
  findings : Clause.findingsAll (r.withClassification c) cs = Clause.findingsAll r cs
  throws : ∀ x, .throws x ∈ Clause.traceAll r.overridden cs → P x.type

/-- What leaves a propagation point is the same under both classifications. -/
theorem Node.AgreeAll.leaving (hc : ∀ t, P t → r.classification.AgreeOn c t) {ns : List Node}
    (h : Node.AgreeAll r c P ns) (declared : List ExceptionType) :
    Event.unhandled c declared (Node.traceAll r.overridden ns) =
      Event.unhandled r.classification declared (Node.traceAll r.overridden ns) :=
  Event.unhandled_congr (fun x hx => hc x.type (h.throws x hx)) declared

mutual

theorem Node.agrees (hc : ∀ t, P t → r.classification.AgreeOn c t) :
    ∀ n : Node, n.JudgesAll r.overridden P → n.Agrees r c P
  | .absent, _ => ⟨rfl, fun x hx => by cases hx⟩
  | .foreign _, _ => ⟨rfl, fun x hx => by cases hx⟩
  | .unit body span, h => by
    have hbody := Node.agreesAll hc body fun m hm => h.child hm
    refine ⟨?_, fun x hx => by cases hx⟩
    simp only [Node.findings, hbody.findings]
    exact congrArg _ (hbody.leaving hc [])
  | .classDef symbol ctor body span, h => by
    have hbody := Node.agreesAll hc body fun m hm => h.child hm
    refine ⟨?_, fun x hx => by cases hx⟩
    simp only [Node.findings, hbody.findings]
    split
    · rfl
    · split
      · rfl
      · rw [← hbody.leaving hc]
        rfl
  | .funcDef symbol params body span, h => by
    have hbody := Node.agreesAll hc body fun m hm => h.child hm
    have hself : (Node.funcDef symbol params body span).Judges r.overridden P := h _ .refl
    have hdefinition : Declared.definitionFindings r.overridden c.isSubtype symbol span =
        Declared.definitionFindings r.overridden r.classification.isSubtype symbol span :=
      Declared.definitionFindings_congr fun t ht => (hc t (hself t ht)).isSubtype
    refine ⟨?_, fun x hx => by cases hx⟩
    simp only [Node.findings, hbody.findings]
    split
    · rfl
    · rw [← hdefinition, ← hbody.leaving hc]
      rfl
  | .tryCatch body clauses finalizer span, h => by
    have hbody := Node.agrees hc body (h.child List.mem_cons_self)
    have hclauses := Clause.agreesAll hc clauses fun k hk => by
      apply h.child
      rw [Node.children, List.cons_append]
      exact List.mem_cons_of_mem _ (List.mem_append_left _ (List.mem_map_of_mem hk))
    have hlast : Node.present [finalizer] ⊆
        (Node.tryCatch body clauses finalizer span).children := by
      rw [Node.children, List.cons_append]
      exact List.subset_cons_of_subset _ (List.subset_append_right _ _)
    have hfinalizer := Node.agrees hc finalizer (h.place hlast (List.mem_singleton_self _))
    refine ⟨?_, fun x hx => ?_⟩
    · simp only [Node.findings, hbody.findings, hclauses.findings, hfinalizer.findings]
    · simp only [Node.trace, List.mem_append, List.mem_cons, reduceCtorEq, false_or] at hx
      rcases hx with hx | hx | hx
      · exact hbody.throws x hx
      · exact hclauses.throws x hx
      · exact hfinalizer.throws x hx
  | .clause k, h => by
    have hclause := Clause.agrees hc k h
    exact ⟨hclause.findings, hclause.throws⟩
  | .raise value type span, h => by
    have hvalue := Node.agrees hc value (h.child List.mem_cons_self)
    have hself : (Node.raise value type span).Judges r.overridden P := h _ .refl
    refine ⟨?_, fun x hx => ?_⟩
    · simp only [Node.findings, hvalue.findings]
    · simp only [Node.trace, List.mem_append, List.mem_map, Option.mem_toList] at hx
      rcases hx with hx | ⟨t, ht, hx⟩
      · exact hvalue.throws x hx
      · cases hx
        exact hself t ht
  | .invoke how symbol operands type span, h => by
    have hoperands := Node.agreesAll hc operands fun m hm => h.child hm
    have hself : (Node.invoke how symbol operands type span).Judges r.overridden P := h _ .refl
    refine ⟨?_, fun x hx => ?_⟩
    · simp only [Node.findings, hoperands.findings]
      rfl
    · simp only [Node.trace, List.mem_append, List.mem_map] at hx
      rcases hx with hx | ⟨t, ht, hx⟩
      · exact hoperands.throws x hx
      · cases hx
        exact hself t (Declared.declares_of_mem_thrownBy ht)
  | .plain form parts span, h => by
    have hparts := Node.agreesAll hc parts fun m hm => h.child hm
    exact ⟨hparts.findings, hparts.throws⟩

theorem Node.agreesAll (hc : ∀ t, P t → r.classification.AgreeOn c t) :
    ∀ ns : List Node, (∀ n ∈ ns, n.JudgesAll r.overridden P) → Node.AgreeAll r c P ns
  | [], _ => ⟨rfl, fun x hx => by cases hx⟩
  | n :: ns, h => by
    have hhead := Node.agrees hc n (h n List.mem_cons_self)
    have htail := Node.agreesAll hc ns fun m hm => h m (List.mem_cons_of_mem n hm)
    refine ⟨?_, fun x hx => ?_⟩
    · rw [Node.findingsAll, Node.findingsAll, hhead.findings, htail.findings]
    · rw [Node.traceAll, List.mem_append] at hx
      exact hx.elim (hhead.throws x) (htail.throws x)

theorem Clause.agrees (hc : ∀ t, P t → r.classification.AgreeOn c t) :
    ∀ k : Clause, (Node.clause k).JudgesAll r.overridden P →
      Node.Agrees r c P (.clause k)
  | .mk pattern guard body span, h => by
    have hpart : ∀ m ∈ [pattern, guard, body], m.JudgesAll r.overridden P := fun m hm =>
      h.place (List.Subset.refl _) hm
    simp only [List.forall_mem_cons] at hpart
    have hpattern := Node.agrees hc pattern hpart.1
    have hguard := Node.agrees hc guard hpart.2.1
    have hbody := Node.agrees hc body hpart.2.2.1
    refine ⟨?_, fun x hx => ?_⟩
    · simp only [Node.findings, Clause.findings, hpattern.findings, hguard.findings, hbody.findings]
    · simp only [Node.trace, Clause.trace, List.mem_append] at hx
      rcases hx with hx | hx | hx
      · exact hpattern.throws x hx
      · exact hguard.throws x hx
      · exact hbody.throws x hx

theorem Clause.agreesAll (hc : ∀ t, P t → r.classification.AgreeOn c t) :
    ∀ cs : List Clause, (∀ k ∈ cs, (Node.clause k).JudgesAll r.overridden P) →
      Clause.AgreeAll r c P cs
  | [], _ => ⟨rfl, fun x hx => by cases hx⟩
  | k :: cs, h => by
    have hhead := Clause.agrees hc k (h k List.mem_cons_self)
    have htail := Clause.agreesAll hc cs fun m hm => h m (List.mem_cons_of_mem k hm)
    have hfindings := hhead.findings
    have hthrows := hhead.throws
    rw [Node.findings, Node.findings] at hfindings
    rw [Node.trace] at hthrows
    refine ⟨?_, fun x hx => ?_⟩
    · rw [Clause.findingsAll, Clause.findingsAll, hfindings, htail.findings]
    · rw [Clause.traceAll, List.mem_append] at hx
      exact hx.elim (hthrows x) (htail.throws x)

end

/-- A tree finds the same under two classifications that agree on the types judged in it. -/
theorem Node.allFindings_congr (hc : ∀ t, P t → r.classification.AgreeOn c t) {tree : Node}
    (h : tree.JudgesAll r.overridden P) :
    tree.allFindings (r.withClassification c) = tree.allFindings r := by
  have hagrees := Node.agrees hc tree h
  have hleaving : Event.unhandled c [] (tree.trace r.overridden) =
      Event.unhandled r.classification [] (tree.trace r.overridden) :=
    Event.unhandled_congr (fun x hx => hc x.type (hagrees.throws x hx)) []
  rw [Node.allFindings, Node.allFindings, hagrees.findings, ← hleaving]
  rfl

end Trees

end CheckedExceptions
