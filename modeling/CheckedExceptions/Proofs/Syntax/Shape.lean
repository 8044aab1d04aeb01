import CheckedExceptions.Language.Ast
import CheckedExceptions.Proofs.Syntax.Spelling

/-!
What the trees of a derivation look like. The trees that a nonterminal contributes to the node
around it have a shape that depends on the nonterminal only: one tree or several that can be read as
some part of a program, or a node with such trees inside it. A derivation has the shape of its
symbol if every production makes a tree of the shape of its left-hand side out of trees of the
shapes of its right-hand side.
-/
namespace CheckedExceptions.Language

namespace Derivation

theorem firstOf?_isSome {ds : List Derivation} {d : Derivation} (hd : d ∈ ds)
    (h : (first? d).isSome) : (firstOf? ds).isSome := by
  induction ds with
  | nil => cases hd
  | cons e ds ih =>
    rw [firstOf?]
    cases he : first? e with
    | some t => rfl
    | none =>
      rcases List.mem_cons.mp hd with rfl | hd
      · rw [he] at h
        cases h
      · exact ih hd

theorem lastOf?_isSome {ds : List Derivation} {d : Derivation} (hd : d ∈ ds)
    (h : (last? d).isSome) : (lastOf? ds).isSome := by
  induction ds with
  | nil => cases hd
  | cons e ds ih =>
    rw [lastOf?]
    cases hds : lastOf? ds with
    | some t => rfl
    | none =>
      rcases List.mem_cons.mp hd with rfl | hd
      · exact h
      · have hsome := ih hd
        rw [hds] at hsome
        cases hsome

end Derivation

/-- Only the start symbol derives the empty text, and only the first production mentions it. -/
theorem exists_symbol_ne_start :
    ∀ p ∈ Grammar.productions, p.lhs ≠ .start → ∃ s ∈ p.rhs, s ≠ .nonTerminal .start := by
  decide +kernel

theorem mem_children_of_mem_rhs {p : Production} {children : List Derivation} {s : Symbol}
    (hsymbols : children.map Derivation.symbol = p.rhs) (hs : s ∈ p.rhs) :
    ∃ d ∈ children, d.symbol = s := by
  rw [← hsymbols] at hs
  exact List.mem_map.mp hs

theorem token_of_derives {d : Derivation} (h : Derives Grammar.productions d)
    (hstart : d.symbol ≠ .nonTerminal .start) : d.first?.isSome ∧ d.last?.isSome := by
  induction h with
  | leaf t => exact ⟨rfl, rfl⟩
  | @node p children hproduction hsymbols hchildren ih =>
    have hlhs : p.lhs ≠ .start := fun heq => hstart (congrArg Symbol.nonTerminal heq)
    obtain ⟨s, hs, hne⟩ := exists_symbol_ne_start p hproduction hlhs
    obtain ⟨d, hd, rfl⟩ := mem_children_of_mem_rhs hsymbols hs
    obtain ⟨hfirst, hlast⟩ := ih d hd hne
    exact ⟨Derivation.firstOf?_isSome hd hfirst, Derivation.lastOf?_isSome hd hlast⟩

/-- A node covers some part of the text, unless it stands for an empty text. -/
theorem extent_of_derives {p : Production} {children : List Derivation}
    (h : Derives Grammar.productions (.node p children)) (hlhs : p.lhs ≠ .start) :
    ∃ x, Derivation.extentOf? children = some x := by
  have hstart : (Derivation.node p children).symbol ≠ .nonTerminal .start :=
    fun heq => hlhs (Symbol.nonTerminal.inj heq)
  obtain ⟨hfirst, hlast⟩ := token_of_derives h hstart
  obtain ⟨a, ha⟩ := Option.isSome_iff_exists.mp hfirst
  obtain ⟨b, hb⟩ := Option.isSome_iff_exists.mp hlast
  rw [Derivation.first?] at ha
  rw [Derivation.last?] at hb
  exact ⟨⟨a.extent.start, b.extent.stop⟩, by simp only [Derivation.extentOf?, ha, hb]⟩

namespace Ast

/-- Every one of the trees can be read. -/
def AllRead {α : Type} (read : Tree → Option α) (ts : List Tree) : Prop :=
  ∀ t ∈ ts, ∃ a, read t = some a

/-- There is one tree, and it can be read. -/
def OneRead {α : Type} (read : Tree → Option α) (ts : List Tree) : Prop :=
  ∃ t, ts = [t] ∧ ∃ a, read t = some a

/-- There is one node, with the given label and something inside it. -/
def IsNode (label : Label) (inside : Extent → List Tree → Prop) (ts : List Tree) : Prop :=
  ∃ x parts, ts = [.node label (some x) parts] ∧ inside x parts

/-- What the trees of a nonterminal look like. -/
def Shape : NonTerminal → List Tree → Prop
  | .root => fun _ => True
  | .start => fun ts => ∃ x items, ts = [.node .start x items] ∧ AllRead item? items
  | .items | .item | .exceptionDecl => AllRead item?
  | .markers => IsNode .markers fun _ => AllRead marker?
  | .ctorMarkers => IsNode .ctorMarkers fun _ => AllRead marker?
  | .markerSeq | .marker => AllRead marker?
  | .typeArgs => IsNode .typeArgs fun _ => AllRead name?
  | .markerArgs => IsNode .markerArgs fun _ => AllRead markerArg?
  | .markerArgTail | .markerArg => AllRead markerArg?
  | .funcDef => IsNode .funcDef fun x parts => ∃ f, func? x parts = some f
  | .ctorDef => IsNode .ctorDef fun x parts => ∃ c, ctor? x parts = some c
  | .paramsDecl => IsNode .paramsDecl fun _ => AllRead param?
  | .paramTail | .param => AllRead param?
  | .classDef => IsNode .classDef fun _ parts => ∃ c, classParts? parts = some c
  | .extendsClause => IsNode .extendsClause fun _ => AllRead name?
  | .typeArgTail | .mixinTail => AllRead name?
  | .classBody => IsNode .classBody fun _ => AllRead member?
  | .members | .member => AllRead member?
  | .block => IsNode .block fun _ => AllRead stmt?
  | .stmts => AllRead stmt?
  | .stmt | .letStmt | .assignStmt | .raiseStmt | .returnStmt | .ifStmt | .elseBranch
  | .whileStmt | .tryStmt | .exprStmt => OneRead stmt?
  | .catches | .catchClause => AllRead handler?
  | .finallyClause => IsNode .finallyClause fun _ => OneRead block?
  | .guard => IsNode .guard fun _ => OneRead expr?
  | .pattern => OneRead pattern?
  | .patternTail => AllRead pattern?
  | .expr | .selection | .atom => OneRead expr?
  | .args => IsNode .args fun _ => AllRead expr?
  | .argTail => AllRead expr?

/-- What the trees of a symbol look like: a token of an open class leaves itself, with a text of
that class, any other token leaves nothing. -/
def SymbolShape : Symbol → List Tree → Prop
  | .terminal t, ts =>
    if t.isOpen then ∃ token, ts = [.token token] ∧ t.Spells token.text.toList else ts = []
  | .nonTerminal n, ts => Shape n ts

/-- What the trees of a row of symbols look like. -/
def RowShape : List Symbol → List Tree → Prop
  | [], ts => ts = []
  | s :: ss, ts => ∃ front back, ts = front ++ back ∧ SymbolShape s front ∧ RowShape ss back

/-- What the trees of the parts of a rule look like. -/
def PartsShape : List Part → List Tree → Prop
  | [], ts => ts = []
  | .one s :: parts, ts =>
    ∃ front back, ts = front ++ back ∧ SymbolShape s front ∧ PartsShape parts back
  | .optional ss :: parts, ts =>
    ∃ front back, ts = front ++ back ∧ (front = [] ∨ RowShape ss front) ∧ PartsShape parts back

theorem rowShape_append {ss ss' : List Symbol} {ts : List Tree} (h : RowShape (ss ++ ss') ts) :
    ∃ front back, ts = front ++ back ∧ RowShape ss front ∧ RowShape ss' back := by
  induction ss generalizing ts with
  | nil => exact ⟨[], ts, rfl, rfl, h⟩
  | cons s ss ih =>
    obtain ⟨front, back, rfl, hs, hback⟩ := h
    obtain ⟨middle, rest, rfl, hss, hss'⟩ := ih hback
    exact ⟨front ++ middle, rest, (List.append_assoc ..).symm, ⟨front, middle, rfl, hs, hss⟩, hss'⟩

/-- Whichever optional parts are there, the trees have the shape of the rule. -/
theorem partsShape_of_expand {parts : List Part} {rhs : List Symbol} {ts : List Tree}
    (hrhs : rhs ∈ Part.expand parts) (h : RowShape rhs ts) : PartsShape parts ts := by
  induction parts generalizing rhs ts with
  | nil =>
    rw [List.mem_singleton.mp hrhs] at h
    exact h
  | cons part parts ih =>
    cases part with
    | one s =>
      obtain ⟨rest, hrest, rfl⟩ := List.mem_map.mp hrhs
      obtain ⟨front, back, rfl, hs, hback⟩ := h
      exact ⟨front, back, rfl, hs, ih hrest hback⟩
    | optional ss =>
      rcases List.mem_append.mp hrhs with hwith | hwithout
      · obtain ⟨rest, hrest, rfl⟩ := List.mem_map.mp hwith
        obtain ⟨front, back, rfl, hss, hback⟩ := rowShape_append h
        exact ⟨front, back, rfl, Or.inr hss, ih hrest hback⟩
      · exact ⟨[], ts, rfl, Or.inl rfl, ih hwithout h⟩

/-- A production makes a tree of the right shape from the trees of its right-hand side. -/
def KeepsShape (p : Production) : Prop :=
  ∀ (x : Option Extent) (ts : List Tree), (p.lhs ≠ .start → ∃ y, x = some y) →
    RowShape p.rhs ts →
    Shape p.lhs (match p.label with
      | some label => [.node label x ts]
      | none => ts)

/-- Derivations in a row have trees of the shape of the row that they spell. -/
theorem rowShape_treesAll {ds : List Derivation}
    (h : ∀ d ∈ ds, SymbolShape d.symbol d.trees) :
    RowShape (ds.map Derivation.symbol) (Derivation.treesAll ds) := by
  induction ds with
  | nil => rfl
  | cons d ds ih =>
    obtain ⟨hd, hds⟩ := List.forall_mem_cons.mp h
    exact ⟨d.trees, Derivation.treesAll ds, rfl, hd, ih hds⟩

/-- The trees of a derivation have the shape of its symbol, if all productions keep shapes. -/
theorem shape_of_derives (hkeeps : ∀ p ∈ Grammar.productions, KeepsShape p) {d : Derivation}
    (h : Derives Grammar.productions d) (htexts : ∀ t ∈ d.tokens, t.terminal.Spells t.text.toList) :
    SymbolShape d.symbol d.trees := by
  induction h with
  | leaf t =>
    simp only [Derivation.symbol, SymbolShape, Derivation.trees]
    split
    · exact ⟨t, rfl, htexts t (List.mem_singleton_self t)⟩
    · rfl
  | @node p children hproduction hsymbols hchildren ih =>
    have hrow := rowShape_treesAll fun d hd =>
      ih d hd fun t ht => htexts t (Derivation.mem_tokens_node hd ht)
    rw [hsymbols] at hrow
    have hextent := extent_of_derives (.node hproduction hsymbols hchildren)
    have hshape := hkeeps p hproduction _ _ hextent hrow
    simp only [Derivation.symbol, SymbolShape, Derivation.trees]
    exact hshape

section Rows

open Grammar

variable {parts : List Part} {ts : List Tree}

theorem partsShape_punct (m : Mark) : PartsShape (punct m :: parts) ts ↔ PartsShape parts ts := by
  constructor
  · rintro ⟨_, _, rfl, rfl, h⟩
    exact h
  · intro h
    exact ⟨[], ts, rfl, rfl, h⟩

theorem partsShape_kw (k : Keyword) : PartsShape (kw k :: parts) ts ↔ PartsShape parts ts := by
  constructor
  · rintro ⟨_, _, rfl, rfl, h⟩
    exact h
  · intro h
    exact ⟨[], ts, rfl, rfl, h⟩

theorem partsShape_tok {t : Terminal} (ht : t.isOpen = true) :
    PartsShape (tok t :: parts) ts ↔ ∃ token back, ts = .token token :: back ∧
      t.Spells token.text.toList ∧ PartsShape parts back := by
  simp only [tok, PartsShape, SymbolShape, ht, ↓reduceIte]
  constructor
  · rintro ⟨_, back, rfl, ⟨token, rfl, htext⟩, h⟩
    exact ⟨token, back, rfl, htext, h⟩
  · rintro ⟨token, back, rfl, htext, h⟩
    exact ⟨[.token token], back, rfl, ⟨token, rfl, htext⟩, h⟩

theorem partsShape_name :
    PartsShape (tok .name :: parts) ts ↔ ∃ token back, ts = .token token :: back ∧
      Terminal.name.Spells token.text.toList ∧ PartsShape parts back :=
  partsShape_tok rfl

theorem rowShape_single {s : Symbol} (h : RowShape [s] ts) : SymbolShape s ts := by
  obtain ⟨front, _, rfl, hs, rfl⟩ := h
  rwa [List.append_nil]

/-- The second symbol of a row whose first one leaves no tree. -/
theorem rowShape_second {t : Terminal} (ht : t.isOpen = false) {s : Symbol}
    (h : RowShape [.terminal t, s] ts) : SymbolShape s ts := by
  obtain ⟨front, _, rfl, hfront, hback⟩ := h
  simp only [SymbolShape, ht, Bool.false_eq_true, ↓reduceIte] at hfront
  subst hfront
  exact rowShape_single hback

theorem partsShape_opt {n : NonTerminal} :
    PartsShape (opt n :: parts) ts ↔ ∃ front back, ts = front ++ back ∧
      (front = [] ∨ Shape n front) ∧ PartsShape parts back := by
  constructor
  · rintro ⟨front, back, rfl, hfront, h⟩
    exact ⟨front, back, rfl, hfront.imp_right rowShape_single, h⟩
  · rintro ⟨front, back, rfl, hfront, h⟩
    refine ⟨front, back, rfl, hfront.imp_right fun hn => ?_, h⟩
    exact ⟨front, [], (List.append_nil front).symm, hn, rfl⟩

/-- A rule that builds a node. -/
theorem keepsShape_node {lhs : NonTerminal} {label : Label} (hlhs : lhs ≠ .start)
    (h : ∀ x ts, PartsShape parts ts → Shape lhs [.node label (some x) ts]) :
    ∀ p ∈ node lhs label parts, KeepsShape p := by
  intro p hp x ts hx hrow
  obtain ⟨rhs, hrhs, rfl⟩ := List.mem_map.mp hp
  obtain ⟨y, rfl⟩ := hx hlhs
  exact h y ts (partsShape_of_expand hrhs hrow)

theorem keepsShape_choice {lhs : NonTerminal} {alternatives : List NonTerminal}
    (h : ∀ n ∈ alternatives, ∀ ts, Shape n ts → Shape lhs ts) :
    ∀ p ∈ choice lhs alternatives, KeepsShape p := by
  intro p hp x ts _ hrow
  obtain ⟨n, hn, rfl⟩ := List.mem_map.mp hp
  exact h n hn ts (rowShape_single hrow)

theorem AllRead.append {α : Type} {read : Tree → Option α} {ts ts' : List Tree}
    (h : AllRead read ts) (h' : AllRead read ts') : AllRead read (ts ++ ts') :=
  List.forall_mem_append.mpr ⟨h, h'⟩

theorem OneRead.allRead {α : Type} {read : Tree → Option α} {ts : List Tree}
    (h : OneRead read ts) : AllRead read ts := by
  obtain ⟨t, rfl, ht⟩ := h
  exact List.forall_mem_singleton.mpr ht

/-- Where nothing has to be read, all of it can be. -/
theorem allRead_of_optional {α : Type} {read : Tree → Option α} {ts : List Tree}
    (h : ts = [] ∨ AllRead read ts) : AllRead read ts := by
  rcases h with rfl | h
  · exact List.forall_mem_nil _
  · exact h

/-- One or more groups that are read one by one. -/
theorem keepsShape_repeated {α : Type} {read : Tree → Option α} {lhs : NonTerminal}
    {group : List Symbol} (hlhs : Shape lhs = AllRead read)
    (hgroup : ∀ ts, RowShape group ts → AllRead read ts) :
    ∀ p ∈ repeated lhs group, KeepsShape p := by
  intro p hp x ts _ hrow
  rcases List.mem_cons.mp hp with rfl | hp
  · obtain ⟨front, back, rfl, hfront, hback⟩ := hrow
    have hread : AllRead read front := hlhs ▸ hfront
    exact hlhs ▸ hread.append (hgroup back hback)
  · rw [List.mem_singleton.mp hp] at hrow ⊢
    exact hlhs ▸ hgroup ts hrow

theorem allRead_names {ts : List Tree} (h : SymbolShape (.terminal .name) ts) :
    AllRead name? ts := by
  obtain ⟨token, rfl, -⟩ := h
  exact List.forall_mem_singleton.mpr ⟨token.text, rfl⟩

end Rows

theorem mapM_of_allRead {α : Type} {read : Tree → Option α} {ts : List Tree}
    (h : AllRead read ts) : ∃ as, ts.mapM read = some as := by
  induction ts with
  | nil => exact ⟨[], rfl⟩
  | cons t ts ih =>
    obtain ⟨⟨a, ha⟩, hts⟩ := List.forall_mem_cons.mp h
    obtain ⟨as, has⟩ := ih hts
    exact ⟨a :: as, by simp [ha, has]⟩

end Ast

end CheckedExceptions.Language
