import CheckedExceptions.Proofs.Syntax.Following
import CheckedExceptions.Proofs.Syntax.Spelling
import CheckedExceptions.Proofs.Syntax.Trees

/-!
Which texts are programs, and with which tree. A text that is accepted is spelled by the tokens of a
derivation from the start symbol, with only layout around them. The other way round, the tokens of
every such derivation, written with some layout between each two of them, are accepted with the tree
of that derivation; so a list of tokens has at most one derivation.
-/
namespace CheckedExceptions.Language

section Steps

/-- Heights of the nonterminals, so chosen that a production with one symbol on its right leads down
and that no chain of them is higher than what a second symbol is worth. -/
def NonTerminal.height : NonTerminal → Nat
  | .start => 17
  | .items | .members => 7
  | .item | .member | .stmts => 6
  | .stmt => 5
  | .exprStmt | .args => 4
  | .expr | .markers | .ctorMarkers => 3
  | .root | .selection | .markerSeq | .elseBranch | .catches => 2
  | _ => 1

def Symbol.height : Symbol → Nat
  | .terminal _ => 0
  | .nonTerminal n => n.height

def Symbol.heights : List Symbol → Nat
  | [] => 0
  | s :: ss => s.height + heights ss

theorem height_of_production : ∀ p ∈ Grammar.productions,
    Symbol.heights p.rhs + 17 ≤ 16 * p.rhs.length + p.lhs.height := by
  decide +kernel

theorem stepsAll_le {ds : List Derivation}
    (hds : ∀ d ∈ ds, d.steps + 16 ≤ 18 * d.tokens.length + d.symbol.height) :
    Derivation.stepsAll ds + 16 * ds.length ≤
      18 * (Derivation.tokensAll ds).length + Symbol.heights (ds.map Derivation.symbol) := by
  induction ds with
  | nil => exact le_refl 0
  | cons d ds ih =>
    obtain ⟨hd, hds⟩ := List.forall_mem_cons.mp hds
    have hrest := ih hds
    simp only [Derivation.stepsAll, Derivation.tokensAll, List.length_cons, List.length_append,
      List.map_cons, Symbol.heights]
    omega

/-- The number of steps is linear in the number of tokens. -/
theorem steps_le {d : Derivation} (hd : Derives Grammar.productions d) :
    d.steps + 16 ≤ 18 * d.tokens.length + d.symbol.height := by
  induction hd with
  | leaf t => exact le_refl 18
  | @node p children hproduction hsymbols _ ih =>
    have hchildren := stepsAll_le ih
    have hheight := height_of_production p hproduction
    have hlength : p.rhs.length = children.length := by rw [← hsymbols, List.length_map]
    rw [hsymbols] at hchildren
    rw [hlength] at hheight
    simp only [Derivation.steps, Derivation.tokens, Derivation.symbol, Symbol.height]
    omega

end Steps

section Writing

/-- A token can be written down: its text is one of its terminal, and no keyword if it is a name. -/
def Token.Writable (t : Token) : Prop :=
  t.terminal.Spells t.text.toList ∧ (t.terminal = .name → ∀ k : Keyword, t.text ≠ k.text)

theorem Token.Writable.ofText?_eq_none {t : Token} (ht : t.Writable) (hname : t.terminal = .name) :
    Keyword.ofText? t.text.toList = none := by
  rw [Option.eq_none_iff_forall_ne_some]
  intro k hk
  exact ht.2 hname k (String.toList_inj.mp (Keyword.ofText?_eq_some hk)).symm

theorem Token.writable_mark (m : Mark) (x : Extent) :
    Token.Writable ⟨.mark m, String.ofList [m.char], x⟩ :=
  ⟨String.toList_ofList, nofun⟩

theorem Token.writable_operator {o : String} (ho : o ∈ operators) (x : Extent) :
    Token.Writable ⟨.operator, o, x⟩ :=
  ⟨⟨o, ho, rfl⟩, nofun⟩

theorem Token.writable_name {text : String} (htext : Terminal.Spells .name text.toList)
    (hkeywords : ∀ k ∈ Keyword.all, text ≠ k.text) (x : Extent) :
    Token.Writable ⟨.name, text, x⟩ :=
  ⟨htext, fun _ k => hkeywords k k.mem_all⟩

theorem Derivation.ne_endOfText_of_mem_tokens {d : Derivation} (hd : Derives Grammar.productions d)
    (hroot : d.symbol ≠ .nonTerminal .root) (hend : d.symbol ≠ .terminal .endOfText) :
    ∀ t ∈ d.tokens, t.terminal ≠ .endOfText := by
  induction hd with
  | leaf x =>
    intro t ht
    rw [List.mem_singleton.mp ht]
    exact fun heq => hend (congrArg Symbol.terminal heq)
  | @node p children hproduction hsymbols _ ih =>
    intro t ht
    rw [Derivation.tokens, Derivation.tokensAll_eq_flatMap] at ht
    obtain ⟨c, hc, ht⟩ := List.mem_flatMap.mp ht
    have hlhs : p.lhs ≠ .root := fun heq => hroot (congrArg Symbol.nonTerminal heq)
    obtain ⟨hroot', -, hend'⟩ := inner_of_child hproduction hsymbols hlhs hc
    exact ih c hc hroot' hend' t ht

/-- Every piece has a text, so there are no more pieces than characters. -/
theorem length_le_written {pieces : List Piece} (hpieces : ∀ q ∈ pieces, q.WellWritten)
    (final : List Char) : pieces.length ≤ (written pieces final).length := by
  induction pieces with
  | nil => exact Nat.zero_le _
  | cons q pieces ih =>
    obtain ⟨⟨-, hend, hspells⟩, hpieces⟩ := List.forall_mem_cons.mp hpieces
    obtain ⟨c, cs, htext, -⟩ := hspells.head hend
    have hrest := ih hpieces
    simp only [written, htext, List.length_cons, List.length_append]
    omega

theorem FinalLayout.boundary {cs : List Char} (h : FinalLayout cs) : Boundary cs := by
  cases h with
  | closed hcs =>
    have hboundary := hcs.boundary fun _ => boundary_nil
    rwa [List.append_nil] at hboundary
  | comment hcs _ =>
    refine hcs.boundary fun _ => ?_
    rintro x ⟨⟩
    exact mem_layoutStarts.mpr (Or.inr rfl)

/-- The token at the end of a text, wherever that is. -/
def endToken : Token := ⟨.endOfText, "", .nowhere⟩

/-- Pieces with layout between them offer their tokens, and then the end of the text. -/
theorem offers_written {pieces : List Piece}
    (hpieces : ∀ q ∈ pieces, q.WellWritten ∧ q.token.Writable)
    (hgaps : ∀ q ∈ pieces.tail, q.gap ≠ []) {final : List Char} (hfinal : FinalLayout final)
    {r : Remaining} (hr : r.chars = written pieces final) :
    r.Offers (pieces.map (·.token) ++ [endToken]) := by
  induction pieces generalizing r with
  | nil =>
    rw [written] at hr
    rw [← hr] at hfinal
    obtain ⟨r', hnext⟩ := Remaining.next_of_final hfinal
    exact .cons (fun allowed _ => hnext allowed) rfl (.nil r')
  | cons q pieces ih =>
    obtain ⟨⟨hq, hwritable⟩, hpieces⟩ := List.forall_mem_cons.mp hpieces
    have hboundary : Boundary (written pieces final) := by
      cases pieces with
      | nil => exact hfinal.boundary
      | cons q' pieces =>
        have hne := hgaps q' List.mem_cons_self
        exact (hpieces q' List.mem_cons_self).1.1.boundary fun hnil => absurd hnil hne
    refine .cons (fun allowed hallowed =>
      Remaining.next_of_piece hq hwritable.ofText?_eq_none hallowed hboundary hr) rfl ?_
    exact ih hpieces (fun q hq => hgaps q (List.mem_of_mem_tail hq)) rfl

theorem Remaining.Offers.congr {r : Remaining} {ts us : List Token} (h : r.Offers ts)
    (heq : ts.map Token.unplaced = us.map Token.unplaced) : r.Offers us := by
  induction h generalizing us with
  | nil r =>
    cases us with
    | nil => exact .nil r
    | cons u us => cases heq
  | @cons r r' t t' ts hnext hplaced _ ih =>
    cases us with
    | nil => cases heq
    | cons u us =>
      obtain ⟨hhead, htail⟩ := List.cons.inj heq
      refine .cons ?_ (hplaced.trans hhead) (ih htail)
      rw [← Token.terminal_eq_of_unplaced hhead]
      exact hnext

/-- Pieces with the tokens of a derivation of the start symbol are read as that derivation. -/
theorem derive_of_written {d : Derivation} (hd : Derives Grammar.productions d)
    (hstart : d.symbol = .nonTerminal .start) {pieces : List Piece}
    (htokens : (pieces.map (·.token)).map Token.unplaced = d.tokens.map Token.unplaced)
    (hpieces : ∀ q ∈ pieces, q.WellWritten ∧ q.token.Writable)
    (hgaps : ∀ q ∈ pieces.tail, q.gap ≠ []) {final : List Char} (hfinal : FinalLayout final) :
    ∃ d', derive (String.ofList (written pieces final)) = .ok d' ∧ d'.unplaced = d.unplaced := by
  have hchars : (Remaining.ofText (String.ofList (written pieces final))).chars =
      written pieces final := String.toList_ofList
  have hoffers : (Remaining.ofText (String.ofList (written pieces final))).Offers
      (d.tokens ++ [endToken]) := by
    refine (offers_written hpieces hgaps hfinal hchars).congr ?_
    rw [List.map_append, List.map_append, htokens]
  obtain ⟨d', hplaced, hrun⟩ :=
    Machine.run_of_offers Automaton.complete_states hd hstart rfl hoffers
  refine ⟨d', ?_, hplaced⟩
  have hlength : d.tokens.length ≤ (String.ofList (written pieces final)).length := by
    have hsame := congrArg List.length htokens
    simp only [List.length_map] at hsame
    rw [String.length_ofList, ← hsame]
    exact length_le_written (fun q hq => (hpieces q hq).1) final
  have hsteps := steps_le hd
  rw [hstart] at hsteps
  have hbound : d.steps + 2 ≤ Machine.stepBound (String.ofList (written pieces final)).length := by
    have hheight : (Symbol.nonTerminal .start).height = 17 := rfl
    have hall : NonTerminal.all.length = 48 := rfl
    rw [Machine.stepBound, hall]
    omega
  obtain ⟨fuel, hfuel⟩ := Nat.exists_eq_add_of_le hbound
  rw [derive, hfuel, Nat.add_right_comm]
  exact hrun fuel

/-- Layout in front of the tokens of a derivation of the start symbol makes well-written pieces. -/
theorem wellWritten_of_tokens {d : Derivation} (hd : Derives Grammar.productions d)
    (hstart : d.symbol = .nonTerminal .start) (hwritable : ∀ t ∈ d.tokens, t.Writable)
    {pieces : List Piece} (htokens : pieces.map (·.token) = d.tokens)
    (hgaps : ∀ q ∈ pieces, Layout q.gap) : ∀ q ∈ pieces, q.WellWritten ∧ q.token.Writable := by
  intro q hq
  have hmem : q.token ∈ d.tokens := by
    rw [← htokens]
    exact List.mem_map_of_mem hq
  have hne := Derivation.ne_endOfText_of_mem_tokens hd (by rw [hstart]; decide)
    (by rw [hstart]; decide) _ hmem
  exact ⟨⟨hgaps q hq, hne, (hwritable _ hmem).1⟩, hwritable _ hmem⟩

/-- Two derivations with the same tokens are read from one text, so they are the same. -/
theorem unplaced_eq_of_tokens {d e : Derivation} (hd : Derives Grammar.productions d)
    (hdstart : d.symbol = .nonTerminal .start) (he : Derives Grammar.productions e)
    (hestart : e.symbol = .nonTerminal .start) (hwritable : ∀ t ∈ d.tokens, t.Writable)
    (htokens : e.tokens.map Token.unplaced = d.tokens.map Token.unplaced) :
    e.unplaced = d.unplaced := by
  have hmapped : (d.tokens.map (Piece.mk [' '])).map (·.token) = d.tokens := by
    simp [Function.comp_def]
  have hgaps : ∀ q ∈ d.tokens.map (Piece.mk [' ']), q.gap = [' '] := by simp
  have hpieces := wellWritten_of_tokens hd hdstart hwritable hmapped fun q hq => by
    rw [hgaps q hq]
    exact .blank (by decide) .nil
  have hseparated : ∀ q ∈ (d.tokens.map (Piece.mk [' '])).tail, q.gap ≠ [] := by
    intro q hq
    rw [hgaps q (List.mem_of_mem_tail hq)]
    exact List.cons_ne_nil _ _
  have hsame := congrArg (List.map Token.unplaced) hmapped
  obtain ⟨d', hderive, hd'⟩ :=
    derive_of_written hd hdstart hsame hpieces hseparated (.closed .nil)
  obtain ⟨e', hderive', he'⟩ :=
    derive_of_written he hestart (hsame.trans htokens.symm) hpieces hseparated (.closed .nil)
  rw [hderive] at hderive'
  cases hderive'
  rw [← hd', he']

end Writing

/-- One tree stands for a derivation. Written with any layout between its tokens, the derivation is
read again and is parsed as that tree, apart from the places; no other derivation has the same
tokens. -/
theorem derivations_parse_back {d : Derivation} (hd : Derives Grammar.productions d)
    (hstart : d.symbol = .nonTerminal .start) (hwritable : ∀ t ∈ d.tokens, t.Writable) :
    (∃! tree, d.Shows [tree]) ∧
    (∀ (pieces : List Piece) (final : List Char), pieces.map (·.token) = d.tokens →
      (∀ q ∈ pieces, Layout q.gap) → (∀ q ∈ pieces.tail, q.gap ≠ []) → FinalLayout final →
      ∃ (d' : Derivation) (tree' : Tree),
        derive (String.ofList (written pieces final)) = .ok d' ∧ d'.unplaced = d.unplaced ∧
        parse (String.ofList (written pieces final)) = .ok tree' ∧ d'.Shows [tree'] ∧
        ∀ tree, d.Shows [tree] → tree'.unplaced = tree.unplaced) ∧
    ∀ e : Derivation, Derives Grammar.productions e → e.symbol = .nonTerminal .start →
      e.tokens.map Token.unplaced = d.tokens.map Token.unplaced → e.unplaced = d.unplaced := by
  have hshows (tree : Tree) : d.Shows [tree] ↔ tree = d.tree :=
    Derivation.shows_singleton_iff hd hstart
  refine ⟨⟨d.tree, (hshows _).mpr rfl, fun tree => (hshows tree).mp⟩, ?_, ?_⟩
  · intro pieces final htokens hgaps hseparated hfinal
    obtain ⟨d', hderive, hplaced⟩ := derive_of_written hd hstart
      (congrArg (List.map Token.unplaced) htokens)
      (wellWritten_of_tokens hd hstart hwritable htokens hgaps) hseparated hfinal
    obtain ⟨hd', hstart'⟩ := derives_of_derive hderive
    have hparse : parse (String.ofList (written pieces final)) = .ok d'.tree :=
      congrArg (Except.map Derivation.tree) hderive
    refine ⟨d', d'.tree, hderive, hplaced, hparse, ?_, fun tree htree => ?_⟩
    · exact (Derivation.shows_singleton_iff hd' hstart').mpr rfl
    · rw [(hshows tree).mp htree, ← d'.tree_unplaced, hplaced, d.tree_unplaced]
  · intro e he hestart htokens
    exact unplaced_eq_of_tokens hd hstart he hestart hwritable htokens

/-- An assignment of a comparison, with a name that begins with a keyword and a string that begins
like a comment: `raised = f ( ) == "//"`. -/
def comparison : Derivation :=
  let leaf (t : Terminal) (text : String) : Derivation := .leaf ⟨t, text, .nowhere⟩
  let choice (n : NonTerminal) (d : Derivation) : Derivation :=
    .node ⟨n, none, [d.symbol]⟩ [d]
  let node (n : NonTerminal) (label : Label) (ds : List Derivation) : Derivation :=
    .node ⟨n, some label, ds.map Derivation.symbol⟩ ds
  let call := node .selection .call
    [leaf .name "f", leaf (.mark .leftParen) "(", leaf (.mark .rightParen) ")"]
  let text := choice .selection (node .atom .string [leaf .string "\"//\""])
  let value := node .expr .binary [choice .expr call, leaf .operator "==", text]
  let assignment := node .assignStmt .assignStmt
    [leaf .name "raised", leaf (.mark .equal) "=", value]
  node .start .start [choice .items (choice .item (choice .stmt assignment))]

theorem derives_comparison : Derives Grammar.productions comparison := by
  repeat'
    first
    | exact .leaf _
    | refine .node (by decide +kernel) rfl ?_
    | exact List.forall_mem_nil _
    | refine List.forall_mem_cons.mpr ⟨?_, ?_⟩

theorem writable_comparison : ∀ t ∈ comparison.tokens, t.Writable := by
  have hraised : ∀ x, Token.Writable ⟨.name, "raised", x⟩ := Token.writable_name
    ⟨'r', "aised".toList, rfl, by decide, List.all_eq_true.mp (by decide)⟩ (by decide)
  have hf : ∀ x, Token.Writable ⟨.name, "f", x⟩ := Token.writable_name
    ⟨'f', [], rfl, by decide, List.forall_mem_nil _⟩ (by decide)
  have hstring : Token.Writable ⟨.string, "\"//\"", .nowhere⟩ :=
    ⟨⟨['/', '/'], rfl, .plain (by decide) (by decide) (.plain (by decide) (by decide) .nil)⟩,
      nofun⟩
  have hmark (m : Mark) := Token.writable_mark m .nowhere
  simp only [comparison, Derivation.tokens, Derivation.tokensAll, List.cons_append,
    List.nil_append, List.append_nil, List.forall_mem_cons]
  exact ⟨hraised _, hmark .equal, hf _, hmark .leftParen, hmark .rightParen,
    Token.writable_operator (by decide) _, hstring, List.forall_mem_nil _⟩

/-- Layout of different kinds, for each token of `comparison`. -/
def comparisonGaps : List String := ["\n", " ", "// ==\n", "\t", " ", "\n", " "]

def comparisonPieces : List Piece :=
  (comparisonGaps.zip comparison.tokens).map fun (gap, t) => ⟨gap.toList, t⟩

theorem layout_comparisonPieces : ∀ q ∈ comparisonPieces, Layout q.gap := by
  have hblank : ∀ c, isLayout c = true → Layout [c] := fun c hc => .blank hc .nil
  have hcomment : Layout ('/' :: '/' :: ([' ', '=', '='] ++ '\n' :: [])) :=
    .comment (by decide) .nil
  have hgaps : ∀ gap ∈ comparisonGaps, Layout gap.toList := by
    simp only [comparisonGaps, List.forall_mem_cons]
    exact ⟨hblank _ rfl, hblank _ rfl, hcomment, hblank _ rfl, hblank _ rfl, hblank _ rfl,
      hblank _ rfl, List.forall_mem_nil _⟩
  intro q hq
  obtain ⟨⟨gap, t⟩, hmem, rfl⟩ := List.mem_map.mp hq
  exact hgaps gap (List.of_mem_zip hmem).1

theorem finalLayout_comment : FinalLayout "// end".toList :=
  .comment .nil (show '\n' ∉ " end".toList by decide)

/-- What the tree of `comparison` is, apart from places: the call has no arguments, and the marks
are dropped. -/
def comparisonTree : Tree :=
  let token (t : Terminal) (text : String) : Tree := .token ⟨t, text, .nowhere⟩
  .node .start none
    [.node .assignStmt none
      [token .name "raised",
        .node .binary none
          [.node .call none [token .name "f"], token .operator "==",
            .node .string none [token .string "\"//\""]]]]

theorem derivations_parse_back_of_comparison :
    (∃ tree, comparison.Shows [tree] ∧ tree.unplaced = comparisonTree) ∧
    (∃ tree, parse "\nraised =// ==\nf\t( )\n== \"//\"// end" = .ok tree ∧
      tree.unplaced = comparisonTree) ∧
    ∀ e : Derivation, Derives Grammar.productions e → e.symbol = .nonTerminal .start →
      e.tokens.map Token.unplaced = comparison.tokens.map Token.unplaced →
      e.unplaced = comparison.unplaced := by
  have hshows := Derivation.shows_trees comparison
  obtain ⟨-, hparse, hunique⟩ := derivations_parse_back derives_comparison rfl writable_comparison
  obtain ⟨d, tree, -, -, hparse, -, htree⟩ := hparse comparisonPieces "// end".toList rfl
    layout_comparisonPieces (by decide) finalLayout_comment
  exact ⟨⟨_, hshows, rfl⟩, ⟨tree, hparse, htree _ hshows⟩, hunique⟩

/-- A text is parsed as a tree only if the tree stands for a derivation whose tokens spell the text,
each in its place. The tokens of the tree are those of the derivation, without the words and marks
of the grammar. -/
theorem parsed_texts_are_spelled {source : String} {tree : Tree} (h : parse source = .ok tree) :
    ∃ (d : Derivation) (pieces : List Piece) (final : List Char),
      Derives Grammar.productions d ∧ d.symbol = .nonTerminal .start ∧ d.Shows [tree] ∧
      tree.tokens = d.tokens.filter Token.isKept ∧
      pieces.map (·.token) = d.tokens ∧ (∀ q ∈ pieces, q.WellWritten) ∧ Placed .first pieces ∧
      FinalLayout final ∧ source.toList = written pieces final := by
  cases hderive : derive source with
  | error e =>
    rw [parse, hderive] at h
    cases h
  | ok d =>
    rw [parse, hderive] at h
    obtain ⟨hderives, hstart⟩ := derives_of_derive hderive
    obtain ⟨pieces, final, hpieces, htokens, hfinal, hsource, hplaced⟩ :=
      spelledInPlace_of_derive hderive
    have hshows : d.Shows [tree] :=
      (Derivation.shows_singleton_iff hderives hstart).mpr (Except.ok.inj h).symm
    exact ⟨d, pieces, final, hderives, hstart, hshows, hshows.tokens_eq, htokens, hpieces, hplaced,
      hfinal, hsource⟩

theorem parsed_texts_are_spelled_of_comparison :
    ∃ tree, parse "\nraised =// ==\nf\t( )\n== \"//\"// end" = .ok tree ∧
      tree.unplaced = comparisonTree ∧
      ∃ (d : Derivation) (pieces : List Piece) (final : List Char),
        Derives Grammar.productions d ∧ d.symbol = .nonTerminal .start ∧ d.Shows [tree] ∧
        tree.tokens = d.tokens.filter Token.isKept ∧
        pieces.map (·.token) = d.tokens ∧ (∀ q ∈ pieces, q.WellWritten) ∧ Placed .first pieces ∧
        FinalLayout final ∧
        "\nraised =// ==\nf\t( )\n== \"//\"// end".toList = written pieces final := by
  obtain ⟨d, hderive, hplaced⟩ := derive_of_written derives_comparison rfl rfl
    (wellWritten_of_tokens derives_comparison rfl writable_comparison rfl layout_comparisonPieces)
    (by decide) finalLayout_comment
  have hparse : parse "\nraised =// ==\nf\t( )\n== \"//\"// end" = .ok d.tree :=
    congrArg (Except.map Derivation.tree) hderive
  refine ⟨d.tree, hparse, ?_, parsed_texts_are_spelled hparse⟩
  rw [← d.tree_unplaced, hplaced, Derivation.tree_unplaced]
  rfl

end CheckedExceptions.Language
