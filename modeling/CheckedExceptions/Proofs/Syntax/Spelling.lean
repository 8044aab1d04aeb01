import CheckedExceptions.Proofs.Parsing
import CheckedExceptions.Proofs.Syntax.Reading

/-!
The text that a run has consumed. At every moment the tokens on the stack, in the order in which
they were shifted, and the token that waits are the tokens of the consumed text: they spell it, with
only layout between them, each of them covers the part of the text where it is written, and what
remains follows. A reduction regroups the tokens on the stack and drops none of them, so an accepted
derivation has all tokens of the text.
-/
namespace CheckedExceptions.Language

theorem Derivation.tokensAll_eq_flatMap (ds : List Derivation) :
    tokensAll ds = ds.flatMap tokens := by
  induction ds with
  | nil => rfl
  | cons d ds ih => rw [tokensAll, List.flatMap_cons, ih]

theorem Derivation.mem_tokens_node {p : Production} {children : List Derivation} {d : Derivation}
    {t : Token} (hd : d ∈ children) (ht : t ∈ d.tokens) : t ∈ (node p children).tokens := by
  rw [tokens, tokensAll_eq_flatMap]
  exact List.mem_flatMap.mpr ⟨d, hd, ht⟩

section Places

theorem Position.after_append (p : Position) (cs ds : List Char) :
    p.after (cs ++ ds) = (p.after cs).after ds :=
  List.foldl_append

theorem written_eq_append (pieces : List Piece) (final : List Char) :
    written pieces final = written pieces [] ++ final := by
  induction pieces with
  | nil => rfl
  | cons q pieces ih =>
    rw [written, written, ih, List.append_assoc, List.append_assoc]

/-- The tokens of pieces that are written from `p` on stand where their texts are. -/
def Placed : Position → List Piece → Prop
  | _, [] => True
  | p, q :: pieces => q.token.extent = q.extentAt p ∧ Placed q.token.extent.stop pieces

/-- Behind a piece, the next one begins where the token of the first one ends. -/
theorem after_written_cons {p : Position} {q : Piece} (hq : q.token.extent = q.extentAt p)
    (pieces : List Piece) (final : List Char) :
    p.after (written (q :: pieces) final) =
      q.token.extent.stop.after (written pieces final) := by
  rw [written, Position.after_append, Position.after_append, hq]
  rfl

theorem Placed.concat {p : Position} {pieces : List Piece} {q : Piece} (h : Placed p pieces)
    (hq : q.token.extent = q.extentAt (p.after (written pieces []))) :
    Placed p (pieces ++ [q]) := by
  induction pieces generalizing p with
  | nil => exact ⟨hq, trivial⟩
  | cons first pieces ih =>
    obtain ⟨hfirst, hpieces⟩ := h
    rw [after_written_cons hfirst] at hq
    exact ⟨hfirst, ih hpieces hq⟩

end Places

namespace Machine

/-- The tokens on a stack in the order of the text. -/
def tokensOf (stack : List Frame) : List Token := stack.reverse.flatMap (·.tree.tokens)

theorem tokensOf_shift (target : Nat) (t : Token) (stack : List Frame) :
    tokensOf (⟨target, .leaf t⟩ :: stack) = tokensOf stack ++ [t] := by
  simp [tokensOf, Derivation.tokens]

theorem tokensOf_reduce (target n : Nat) (p : Production) (stack : List Frame) :
    tokensOf (⟨target, .node p ((stack.take n).reverse.map (·.tree))⟩ :: stack.drop n) =
      tokensOf stack := by
  calc tokensOf (⟨target, .node p ((stack.take n).reverse.map (·.tree))⟩ :: stack.drop n)
      = (stack.drop n).reverse.flatMap (·.tree.tokens) ++
          (stack.take n).reverse.flatMap (·.tree.tokens) := by
        simp only [tokensOf, List.reverse_cons, List.flatMap_append, List.flatMap_singleton,
          Derivation.tokens, Derivation.tokensAll_eq_flatMap, List.flatMap_map]
    _ = tokensOf stack := by
        rw [← List.flatMap_append, ← List.reverse_append, List.take_append_drop, tokensOf]

/-- The tokens on the stack and the one that waits spell what has been consumed of a text, and stand
where it is written. Once the end of the text waits, nothing but layout stands behind the tokens of
the stack. -/
inductive Consumed (source : List Char) : Machine → Prop
  | reading {stack : List Frame} {remaining : Remaining} {pieces : List Piece}
      (hpieces : ∀ q ∈ pieces, q.WellWritten) (htokens : pieces.map (·.token) = tokensOf stack)
      (hsource : source = written pieces remaining.chars) (hplaced : Placed .first pieces)
      (hposition : remaining.position = Position.first.after (written pieces [])) :
      Consumed source ⟨stack, none, remaining⟩
  | waiting {stack : List Frame} {t : Token} {remaining : Remaining} {pieces : List Piece}
      (hpieces : ∀ q ∈ pieces, q.WellWritten)
      (htokens : pieces.map (·.token) = tokensOf stack ++ [t])
      (hsource : source = written pieces remaining.chars) (hplaced : Placed .first pieces)
      (hposition : remaining.position = Position.first.after (written pieces [])) :
      Consumed source ⟨stack, some t, remaining⟩
  | atEnd {stack : List Frame} {t : Token} {remaining : Remaining} {pieces : List Piece}
      {final : List Char} (hend : t.terminal = .endOfText)
      (hpieces : ∀ q ∈ pieces, q.WellWritten) (htokens : pieces.map (·.token) = tokensOf stack)
      (hfinal : FinalLayout final) (hsource : source = written pieces final)
      (hplaced : Placed .first pieces) :
      Consumed source ⟨stack, some t, remaining⟩

theorem consumed_ofText (source : String) : Consumed source.toList (.ofText source) := by
  have hnone : ∀ q ∈ ([] : List Piece), q.WellWritten := List.forall_mem_nil _
  exact .reading hnone rfl rfl trivial rfl

theorem Effect.consumed {g : List Production} {source : List Char} {m m' : Machine}
    (h : Effect g m (.next m')) (hm : Consumed source m) : Consumed source m' := by
  cases h with
  | @read stack allowed t before after hnext =>
    cases hm with
    | @reading _ _ pieces hpieces htokens hsource hplaced hposition =>
      rcases Remaining.next_ok hnext with ⟨hend, hfinal⟩ | ⟨gap, hpiece, hchars, hextent, hafter⟩
      · exact .atEnd hend hpieces htokens hfinal hsource hplaced
      · have hmore : ∀ q ∈ pieces ++ [⟨gap, t⟩], q.WellWritten :=
          List.forall_mem_append.mpr ⟨hpieces, List.forall_mem_singleton.mpr hpiece⟩
        rw [hposition] at hextent
        refine .waiting hmore ?_ ?_ (hplaced.concat hextent) ?_
        · rw [List.map_append, htokens, List.map_singleton]
        · rw [written_append, ← hchars, hsource]
        · rw [hafter, written_append, written_eq_append, Position.after_append]
          exact (after_written_cons (q := ⟨gap, t⟩) hextent [] []).symm
  | shift target hend =>
    cases hm with
    | waiting hpieces htokens hsource hplaced hposition =>
      exact .reading hpieces (htokens.trans (tokensOf_shift _ _ _).symm) hsource hplaced hposition
    | atEnd hatEnd => exact absurd hatEnd hend
  | reduce target _ _ =>
    cases hm with
    | waiting hpieces htokens hsource hplaced hposition =>
      exact .waiting hpieces (by rw [tokensOf_reduce, htokens]) hsource hplaced hposition
    | atEnd hend hpieces htokens hfinal hsource hplaced =>
      exact .atEnd hend hpieces (by rw [tokensOf_reduce, htokens]) hfinal hsource hplaced

/-- The tokens of a derivation spell a text and stand where it is written. -/
def SpelledInPlace (d : Derivation) (source : List Char) : Prop :=
  ∃ pieces final, (∀ q ∈ pieces, q.WellWritten) ∧ pieces.map (·.token) = d.tokens ∧
    FinalLayout final ∧ source = written pieces final ∧ Placed .first pieces

theorem Effect.spelled {g : List Production} {source : List Char} {m : Machine} {d : Derivation}
    (h : Effect g m (.accepted d)) (hm : Consumed source m) : SpelledInPlace d source := by
  cases h with
  | @accept f t remaining hstart hend =>
    have hsingle : tokensOf [f] = f.tree.tokens := List.append_nil _
    cases hm with
    | @waiting _ _ _ pieces hpieces htokens hsource hplaced hposition =>
      -- A piece is never the end of the text, but the last one would be.
      have hmem : t ∈ pieces.map (·.token) := by simp [htokens]
      obtain ⟨q, hq, rfl⟩ := List.mem_map.mp hmem
      exact absurd hend (hpieces q hq).2.1
    | @atEnd _ _ _ pieces final _ hpieces htokens hfinal hsource hplaced =>
      exact ⟨pieces, final, hpieces, htokens.trans hsingle, hfinal, hsource, hplaced⟩

end Machine

/-- The tokens of the derivation of a text spell the text, each in its place. -/
theorem spelledInPlace_of_derive {source : String} {d : Derivation} (h : derive source = .ok d) :
    Machine.SpelledInPlace d source.toList := by
  have hstates : ∀ s ∈ states, s ∈ Automaton.build Grammar.productions :=
    fun s hs => List.mem_toArray.mp hs
  obtain ⟨m, hm, haccept⟩ := Machine.accepted_of_run hstates (Machine.Consumed source.toList)
    Machine.Effect.consumed _ (Machine.consumed_ofText source) h
  exact haccept.spelled hm

/-- Every token of the derivation of a text has a text of its class. -/
theorem spells_of_derive {source : String} {d : Derivation} (h : derive source = .ok d) :
    ∀ t ∈ d.tokens, t.terminal.Spells t.text.toList := by
  obtain ⟨pieces, final, hpieces, htokens, -⟩ := spelledInPlace_of_derive h
  rw [← htokens]
  intro t ht
  obtain ⟨q, hq, rfl⟩ := List.mem_map.mp ht
  exact (hpieces q hq).2.2

end CheckedExceptions.Language
