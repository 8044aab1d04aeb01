import CheckedExceptions.Language.Parser
import CheckedExceptions.Proofs.Basic

/-!
What the machine accepts was derived. Every item of every state of the automaton stands for a
production of the grammar, so each reduction puts a node of the grammar on the stack, over children
that spell the right-hand side of its production. A text is accepted only when the stack holds one
derivation of the start symbol.
-/
namespace CheckedExceptions.Language

/-- A derivation by the productions of `g`: the children of every node spell the right-hand side of
its production. -/
inductive Derives (g : List Production) : Derivation → Prop
  | leaf (t : Token) : Derives g (.leaf t)
  | node {p : Production} {children : List Derivation} (hproduction : p ∈ g)
      (hsymbols : children.map Derivation.symbol = p.rhs)
      (hchildren : ∀ d ∈ children, Derives g d) : Derives g (.node p children)

namespace Automaton

/-- The items stand for productions of `g`. -/
def OfProductions (g : List Production) (items : List Item) : Prop := ∀ i ∈ items, i.production ∈ g

variable {g : List Production}

theorem ofProductions_initials (g : List Production) : OfProductions g (Item.initials g) := by
  intro i hi
  obtain ⟨⟨p, k⟩, hmem, rfl⟩ := List.mem_map.mp hi
  exact List.fst_mem_of_mem_zipIdx hmem

theorem OfProductions.complete {c : Context} (hinitials : OfProductions g c.initials)
    {items : List (Item × TerminalSet)} (hitems : OfProductions g (items.map (·.1))) :
    OfProductions g ((c.complete items).map (·.1)) := by
  simp only [Context.complete]
  split
  · exact hitems
  · intro i hi
    rw [List.map_append, List.mem_append] at hi
    rcases hi with hi | hi
    · exact hitems i hi
    · obtain ⟨⟨j, after⟩, hmem, rfl⟩ := List.mem_map.mp hi
      obtain ⟨k, hk, hsome⟩ := List.mem_filterMap.mp hmem
      split at hsome
      · cases hsome
      · cases hsome
        exact hinitials _ hk

theorem mem_fileUnder {x y : Symbol} {i j : Item} {is : List Item}
    {groups : List (Symbol × List Item)} (h : (y, is) ∈ fileUnder x i groups) (hj : j ∈ is) :
    j = i ∨ ∃ z js, (z, js) ∈ groups ∧ j ∈ js := by
  induction groups with
  | nil =>
    cases List.mem_singleton.mp h
    exact Or.inl (List.mem_singleton.mp hj)
  | cons group rest ih =>
    obtain ⟨z, js⟩ := group
    unfold fileUnder at h
    split at h
    · rcases List.mem_cons.mp h with heq | h
      · cases heq
        rcases List.mem_append.mp hj with hj | hj
        · exact Or.inr ⟨y, js, List.mem_cons_self, hj⟩
        · exact Or.inl (List.mem_singleton.mp hj)
      · exact Or.inr ⟨y, is, List.mem_cons_of_mem _ h, hj⟩
    · rcases List.mem_cons.mp h with heq | h
      · cases heq
        exact Or.inr ⟨y, is, List.mem_cons_self, hj⟩
      · rcases ih h with hji | ⟨z', js', hmem, hj'⟩
        · exact Or.inl hji
        · exact Or.inr ⟨z', js', List.mem_cons_of_mem _ hmem, hj'⟩

/-- Grouping items by the symbol after their dot makes no new ones. -/
theorem OfProductions.groups {items : List Item} (hitems : OfProductions g items) :
    ∀ group ∈ groups items, OfProductions g group.2 := by
  unfold Automaton.groups
  refine List.foldlRecOn items _
    (motive := fun gs : List (Symbol × List Item) => ∀ group ∈ gs, OfProductions g group.2)
    (List.forall_mem_nil _) ?_
  intro gs hgs i hi
  cases i.rest with
  | nil => exact hgs
  | cons x _ =>
    rintro ⟨y, is⟩ hmem j hj
    rcases mem_fileUnder hmem hj with rfl | ⟨z, js, hjs, hj'⟩
    · exact hitems _ hi
    · exact hgs (z, js) hjs j hj'

theorem OfProductions.advance {items : List Item} (hitems : OfProductions g items) :
    OfProductions g (items.map Item.advance) := by
  intro i hi
  obtain ⟨j, hj, rfl⟩ := List.mem_map.mp hi
  exact hitems j hj

theorem ofProductions_stateOf {f : Found} (hwaiting : ∀ k ∈ f.waiting, OfProductions g k)
    {kernel : List Item} (hkernel : OfProductions g kernel) :
    ∀ k ∈ (f.stateOf kernel).2.waiting, OfProductions g k := by
  simp only [Found.stateOf]
  split
  · exact hwaiting
  · intro k hk
    rcases List.mem_append.mp hk with hk | hk
    · exact hwaiting k hk
    · rw [List.mem_singleton.mp hk]
      exact hkernel

theorem ofProductions_moves {f : Found} {groups : List (Symbol × List Item)}
    (hwaiting : ∀ k ∈ f.waiting, OfProductions g k)
    (hgroups : ∀ group ∈ groups, OfProductions g group.2) :
    ∀ k ∈ (moves f groups).1.waiting, OfProductions g k := by
  induction groups generalizing f with
  | nil => exact hwaiting
  | cons group rest ih =>
    obtain ⟨x, items⟩ := group
    obtain ⟨hgroup, hrest⟩ := List.forall_mem_cons.mp hgroups
    exact ih (ofProductions_stateOf hwaiting hgroup.advance) hrest

theorem ofProductions_explore {c : Context} (hinitials : OfProductions g c.initials)
    (fuel : Nat) {f : Found} (hwaiting : ∀ k ∈ f.waiting, OfProductions g k) :
    ∀ row ∈ explore c fuel f, OfProductions g row.kernel := by
  -- All kernels that wait keep the property: a new one is moved from items of one that waited.
  induction fuel generalizing f with
  | zero => exact List.forall_mem_nil _
  | succ fuel ih =>
    obtain ⟨waiting, index, count⟩ := f
    cases waiting with
    | nil => exact List.forall_mem_nil _
    | cons kernel waiting =>
      obtain ⟨hkernel, hwaiting⟩ := List.forall_mem_cons.mp hwaiting
      have hitems : OfProductions g (((kernel.map fun k => (k, 1)) :
          List (Item × TerminalSet)).map (·.1)) := by
        simpa only [List.map_map, Function.comp_def, List.map_id'] using hkernel
      rw [explore, List.forall_mem_cons]
      exact ⟨hkernel, ih (ofProductions_moves hwaiting (hinitials.complete hitems).groups)⟩

/-- All items of all states stand for productions of the grammar. -/
theorem ofProductions_build {s : State} (hs : s ∈ build g) :
    OfProductions g (s.items.map (·.1)) := by
  obtain ⟨⟨row, base⟩, hmem, rfl⟩ := List.mem_map.mp hs
  have hinitials : OfProductions g (Context.ofProductions g).initials := ofProductions_initials g
  have hrow : OfProductions g row.kernel := by
    refine ofProductions_explore hinitials stateBound ?_ row (List.of_mem_zip hmem).1
    exact ofProductions_stateOf (List.forall_mem_nil _) fun i hi =>
      hinitials i (List.mem_of_mem_take hi)
  refine hinitials.complete fun i hi => ?_
  obtain ⟨⟨j, after⟩, hj, rfl⟩ := List.mem_map.mp hi
  obtain ⟨⟨k, n⟩, hk, heq⟩ := List.mem_map.mp hj
  cases heq
  exact hrow j (List.fst_mem_of_mem_zipIdx hk)

/-- An action other than a reduction is the one for reading the terminal. -/
theorem exists_shift_of_action {items : List (Item × TerminalSet)}
    {moves : List (Symbol × List Item × Nat)} {t : Terminal} {a : Action}
    (h : (t, a) ∈ actions items moves) (ha : ∀ p, a ≠ .reduce p) :
    ∃ target, shiftAction t target = a := by
  rcases List.mem_append.mp h with hshift | hreduce
  · obtain ⟨⟨x, moved, target⟩, -, hsome⟩ := List.mem_filterMap.mp hshift
    cases x with
    | nonTerminal n => cases hsome
    | terminal u =>
      cases hsome
      exact ⟨target, rfl⟩
  · obtain ⟨⟨i, after⟩, -, hmem⟩ := List.mem_flatMap.mp hreduce
    cases hdot : i.rest with
    | nil =>
      simp only [hdot] at hmem
      obtain ⟨u, -, heq⟩ := List.mem_map.mp hmem
      exact absurd (Prod.mk.inj heq).2.symm (ha _)
    | cons x xs => simp [hdot] at hmem

/-- Only completed items are reduced. -/
theorem exists_item_of_reduce {items : List (Item × TerminalSet)}
    {moves : List (Symbol × List Item × Nat)} {t : Terminal} {p : Production}
    (h : (t, Action.reduce p) ∈ actions items moves) :
    ∃ i ∈ items, i.1.production = p ∧ i.1.rest = [] := by
  rcases List.mem_append.mp h with hshift | hreduce
  · obtain ⟨⟨x, moved, target⟩, -, hsome⟩ := List.mem_filterMap.mp hshift
    cases x with
    | nonTerminal n => cases hsome
    | terminal u =>
      simp only [Option.some.injEq, Prod.mk.injEq, shiftAction] at hsome
      split at hsome
      · cases hsome.2
      · cases hsome.2
  · obtain ⟨⟨i, after⟩, hi, hmem⟩ := List.mem_flatMap.mp hreduce
    cases hdot : i.rest with
    | nil =>
      simp only [hdot] at hmem
      obtain ⟨u, -, heq⟩ := List.mem_map.mp hmem
      cases heq
      exact ⟨(i, after), hi, rfl, hdot⟩
    | cons x xs => simp [hdot] at hmem

/-- The automaton reduces by productions of the grammar only. -/
theorem mem_of_reduce {s : State} (hs : s ∈ build g) {t : Terminal} {p : Production}
    (h : s.action? t = some (.reduce p)) : p ∈ g := by
  have hmem : (t, Action.reduce p) ∈ s.actions := mem_of_lookup h
  have hitems := ofProductions_build hs
  obtain ⟨⟨row, base⟩, -, rfl⟩ := List.mem_map.mp hs
  obtain ⟨i, hi, rfl, -⟩ := exists_item_of_reduce hmem
  exact hitems i.1 (List.mem_map_of_mem hi)

/-- The end of the text is never shifted, and nothing else is accepted. -/
theorem endOfText_iff_of_action {s : State} (hs : s ∈ build g) {t : Terminal} {a : Action}
    (h : s.action? t = some a) (ha : ∀ p, a ≠ .reduce p) : a = .accept ↔ t = .endOfText := by
  have hmem : (t, a) ∈ s.actions := mem_of_lookup h
  obtain ⟨⟨row, base⟩, -, rfl⟩ := List.mem_map.mp hs
  obtain ⟨target, rfl⟩ := exists_shift_of_action hmem ha
  simp [shiftAction]

end Automaton

namespace Machine

/-- What one step can do: read a token, shift the token that waits, reduce by a production whose
right-hand side is on top of the stack, accept at the end of the text, or fail. -/
inductive Effect (g : List Production) : Machine → Step → Prop
  | read {stack : List Frame} {allowed : TerminalSet} {t : Token} {before after : Remaining}
      (hnext : before.next allowed = .ok (t, after)) :
      Effect g ⟨stack, none, before⟩ (.next ⟨stack, some t, after⟩)
  | shift {stack : List Frame} {t : Token} {remaining : Remaining} (target : Nat)
      (hend : t.terminal ≠ .endOfText) :
      Effect g ⟨stack, some t, remaining⟩ (.next ⟨⟨target, .leaf t⟩ :: stack, none, remaining⟩)
  | reduce {stack : List Frame} {t : Token} {remaining : Remaining} {p : Production} (target : Nat)
      (hproduction : p ∈ g)
      (hsymbols : ((stack.take p.rhs.length).reverse.map (·.tree)).map Derivation.symbol = p.rhs) :
      Effect g ⟨stack, some t, remaining⟩
        (.next ⟨⟨target, .node p ((stack.take p.rhs.length).reverse.map (·.tree))⟩ ::
          stack.drop p.rhs.length, some t, remaining⟩)
  | accept {f : Frame} {t : Token} {remaining : Remaining}
      (hstart : f.tree.symbol = .nonTerminal .start) (hend : t.terminal = .endOfText) :
      Effect g ⟨[f], some t, remaining⟩ (.accepted f.tree)
  | fail (m : Machine) (e : SyntaxError) : Effect g m (.failed e)

theorem reduce_eq_some {states : Array State} {stack stack' : List Frame} {p : Production}
    (h : reduce states stack p = some stack') :
    ((stack.take p.rhs.length).reverse.map (·.tree)).map Derivation.symbol = p.rhs ∧
      ∃ target, stack' = ⟨target, .node p ((stack.take p.rhs.length).reverse.map (·.tree))⟩ ::
        stack.drop p.rhs.length := by
  obtain ⟨_, hguard, h⟩ := Option.bind_eq_some_iff.mp h
  obtain ⟨s, -, h⟩ := Option.bind_eq_some_iff.mp h
  obtain ⟨target, -, h⟩ := Option.bind_eq_some_iff.mp h
  refine ⟨?_, target, (Option.some.inj h).symm⟩
  by_cases hsymbols :
      ((stack.take p.rhs.length).reverse.map (·.tree)).map Derivation.symbol = p.rhs
  · exact hsymbols
  · have hnone : guard _ = none := if_neg hsymbols
    rw [hnone] at hguard
    cases hguard

section Steps

variable {g : List Production} {states : Array State}
  (hstates : ∀ s ∈ states, s ∈ Automaton.build g)

theorem stateOf_mem {stack : List Frame} {s : State} (h : stateOf states stack = some s) :
    s ∈ states := by
  cases stack with
  | nil => exact Array.mem_of_getElem? h
  | cons f rest => exact Array.mem_of_getElem? h

include hstates

theorem step_effect (m : Machine) : Effect g m (step states m) := by
  obtain ⟨stack, lookahead, remaining⟩ := m
  cases lookahead with
  | none =>
    simp only [step]
    split
    · rename_i t after hnext
      exact .read hnext
    · exact .fail _ _
  | some t =>
    simp only [step]
    split
    · rename_i target haction
      obtain ⟨s, hs, hshift⟩ := Option.bind_eq_some_iff.mp haction
      have hend := Automaton.endOfText_iff_of_action (hstates s (stateOf_mem hs)) hshift nofun
      exact .shift target fun heq => nomatch hend.mpr heq
    · rename_i p haction
      obtain ⟨s, hs, hreduce⟩ := Option.bind_eq_some_iff.mp haction
      have hproduction := Automaton.mem_of_reduce (hstates s (stateOf_mem hs)) hreduce
      split
      · rename_i stack' hstack
        obtain ⟨hsymbols, target, rfl⟩ := reduce_eq_some hstack
        exact .reduce target hproduction hsymbols
      · exact .fail _ _
    · rename_i haction
      obtain ⟨s, hs, haccept⟩ := Option.bind_eq_some_iff.mp haction
      have hend := Automaton.endOfText_iff_of_action (hstates s (stateOf_mem hs)) haccept nofun
      split
      · split
        · rename_i f hstart
          exact .accept hstart (hend.mp rfl)
        · exact .fail _ _
      · exact .fail _ _
    · exact .fail _ _

end Steps

/-- Every tree on a stack is a derivation. -/
def StackDerives (g : List Production) (stack : List Frame) : Prop :=
  ∀ f ∈ stack, Derives g f.tree

theorem Effect.stackDerives {g : List Production} {m m' : Machine} (h : Effect g m (.next m'))
    (hstack : StackDerives g m.stack) : StackDerives g m'.stack := by
  cases h with
  | read => exact hstack
  | shift target _ => exact List.forall_mem_cons.mpr ⟨.leaf _, hstack⟩
  | reduce target hproduction hsymbols =>
    refine List.forall_mem_cons.mpr ⟨.node hproduction hsymbols ?_, ?_⟩
    · intro d hd
      obtain ⟨f, hf, rfl⟩ := List.mem_map.mp hd
      exact hstack f (List.mem_of_mem_take (List.mem_reverse.mp hf))
    · exact fun f hf => hstack f (List.mem_of_mem_drop hf)

theorem Effect.accepted {g : List Production} {m : Machine} {d : Derivation}
    (h : Effect g m (.accepted d)) (hstack : StackDerives g m.stack) :
    Derives g d ∧ d.symbol = .nonTerminal .start := by
  cases h with
  | accept hstart _ => exact ⟨hstack _ List.mem_cons_self, hstart⟩

/-- A run that accepts takes steps, each of which keeps what every step keeps, up to one that
accepts. -/
theorem accepted_of_run {g : List Production} {states : Array State}
    (hstates : ∀ s ∈ states, s ∈ Automaton.build g) (Inv : Machine → Prop)
    (hinv : ∀ {m m'}, Effect g m (.next m') → Inv m → Inv m') (fuel : Nat) {m : Machine}
    {d : Derivation} (hm : Inv m) (h : run states fuel m = .ok d) :
    ∃ m', Inv m' ∧ Effect g m' (.accepted d) := by
  induction fuel generalizing m with
  | zero => cases h
  | succ fuel ih =>
    have heffect := step_effect hstates m
    unfold run at h
    cases hstep : step states m with
    | next m' =>
      rw [hstep] at h heffect
      exact ih (hinv heffect hm) h
    | accepted d' =>
      rw [hstep] at h heffect
      cases h
      exact ⟨m, hm, heffect⟩
    | failed e =>
      rw [hstep] at h
      cases h

end Machine

/-- The derivation of a text derives the start symbol by the productions of the grammar. -/
theorem derives_of_derive {source : String} {d : Derivation} (h : derive source = .ok d) :
    Derives Grammar.productions d ∧ d.symbol = .nonTerminal .start := by
  have hstates : ∀ s ∈ states, s ∈ Automaton.build Grammar.productions :=
    fun s hs => List.mem_toArray.mp hs
  have hstack : Machine.StackDerives Grammar.productions (Machine.ofText source).stack :=
    List.forall_mem_nil _
  obtain ⟨m, hm, haccept⟩ := Machine.accepted_of_run hstates
    (fun m => Machine.StackDerives Grammar.productions m.stack) Machine.Effect.stackDerives _
    hstack h
  exact haccept.accepted hm

end CheckedExceptions.Language
