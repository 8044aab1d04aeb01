import CheckedExceptions.Proofs.Syntax.Texts

/-!
Reading one token, and what a text written token by token reads as. A token that is read stands in
the text behind nothing but layout, and the rest of the text follows it. The other way round, where
layout or nothing stands behind a text of an allowed terminal, that terminal is read from it, and
from all of it: no other reading comes before, because the readings differ in how they begin and no
operator or keyword begins another one that is tried later.
-/
namespace CheckedExceptions.Language

section Keywords

theorem Keyword.ofText?_eq_some {k : Keyword} {cs : List Char} (h : Keyword.ofText? cs = some k) :
    k.text.toList = cs := by
  simpa using List.find?_some h

theorem Keyword.ofText?_text (k : Keyword) : Keyword.ofText? k.text.toList = some k := by
  cases k <;> decide

theorem Keyword.spells_name (k : Keyword) : Terminal.Spells .name k.text.toList := by
  cases k <;> exact ⟨_, _, rfl, by decide, List.all_eq_true.mp (by decide)⟩

end Keywords

section Read

variable {allowed : TerminalSet} {cs front rest : List Char} {t : Terminal}

/-- The text of an allowed terminal, other than the end of the text, and what is left behind it. -/
def IsReading (allowed : TerminalSet) (cs : List Char) (t : Terminal) (front rest : List Char) :
    Prop :=
  cs = front ++ rest ∧ t.Spells front ∧ allowed.contains t = true ∧ t ≠ .endOfText

theorem readWord_eq_some (h : readWord allowed cs = some (t, front, rest)) :
    IsReading allowed cs t front rest := by
  unfold readWord at h
  split at h
  · rename_i hname
    obtain ⟨⟨text, tail⟩, hsplit, heq⟩ := Option.map_eq_some_iff.mp h
    obtain ⟨rfl, hspells⟩ := splitName_eq_some hsplit
    cases hkeyword : (Keyword.ofText? text).filter fun k => allowed.contains (.word k) with
    | none =>
      simp only [hkeyword] at heq
      cases heq
      exact ⟨rfl, hspells, hname, nofun⟩
    | some k =>
      simp only [hkeyword] at heq
      cases heq
      obtain ⟨hk, hallowed⟩ := Option.filter_eq_some_iff.mp hkeyword
      exact ⟨rfl, (Keyword.ofText?_eq_some hk).symm, hallowed, nofun⟩
  · obtain ⟨k, hk, hreading⟩ := List.exists_of_findSome?_eq_some h
    obtain ⟨⟨text, tail⟩, hsplit, heq⟩ := Option.map_eq_some_iff.mp hreading
    cases heq
    obtain ⟨rfl, rfl⟩ := splitText_eq_some.mp hsplit
    exact ⟨rfl, rfl, (List.mem_filter.mp hk).2, nofun⟩

theorem readMark_eq_some (h : readMark allowed cs = some (t, front, rest)) :
    IsReading allowed cs t front rest := by
  obtain ⟨m, hm, hreading⟩ := List.exists_of_findSome?_eq_some h
  obtain ⟨⟨text, tail⟩, hsplit, heq⟩ := Option.map_eq_some_iff.mp hreading
  cases heq
  obtain ⟨rfl, rfl⟩ := splitText_eq_some.mp hsplit
  exact ⟨rfl, rfl, (List.mem_filter.mp hm).2, nofun⟩

theorem readOpen_eq_some {u : Terminal} (hu : u ≠ .endOfText) {split : Split}
    (hsplit : ∀ {front rest}, split = some (front, rest) → cs = front ++ rest ∧ u.Spells front)
    (h : readOpen allowed u split = some (t, front, rest)) :
    IsReading allowed cs t front rest := by
  unfold readOpen at h
  split at h
  · rename_i hallowed
    obtain ⟨⟨text, tail⟩, hfound, heq⟩ := Option.map_eq_some_iff.mp h
    cases heq
    obtain ⟨hcs, hspells⟩ := hsplit hfound
    exact ⟨hcs, hspells, hallowed, hu⟩
  · cases h

/-- What is read is the text of an allowed terminal. -/
theorem readTerminal_eq_some (h : readTerminal allowed cs = some (t, front, rest)) :
    IsReading allowed cs t front rest := by
  obtain ⟨reading, hmem, hreading⟩ := List.exists_of_findSome?_eq_some h
  simp only [List.mem_cons, List.not_mem_nil, or_false] at hmem
  rcases hmem with rfl | rfl | rfl | rfl | rfl
  · exact readWord_eq_some hreading
  · exact readOpen_eq_some (u := .string) nofun splitString_eq_some hreading
  · exact readOpen_eq_some (u := .number) nofun splitNumber_eq_some hreading
  · exact readOpen_eq_some (u := .operator) nofun splitOperator_eq_some hreading
  · exact readMark_eq_some hreading

end Read

section Unread

variable {allowed : TerminalSet} {c : Char} {cs text rest : List Char} {t : Terminal}

theorem readWord_eq_none (hc : isNameStart c = false) : readWord allowed (c :: cs) = none := by
  unfold readWord
  split
  · simp [readName, splitName, hc]
  · refine List.findSome?_eq_none_iff.mpr fun k _ => ?_
    obtain ⟨x, xs, htext, hx, -⟩ := k.spells_name
    have hne : x ≠ c := by
      rintro rfl
      rw [hc] at hx
      cases hx
    rw [htext, splitText_eq_none hne]
    rfl

theorem readString_eq_none (hc : c ≠ '"') :
    readOpen allowed .string (splitString (c :: cs)) = none := by
  have hsplit : splitString (c :: cs) = none := by
    unfold splitString
    split
    · rename_i heq
      exact absurd (List.cons.inj heq).1 hc
    · rfl
  rw [hsplit]
  exact ite_self _

theorem readNumber_eq_none (hc : c.isDigit = false) :
    readOpen allowed .number (splitNumber (c :: cs)) = none := by
  have hsplit : splitNumber (c :: cs) = none := by simp [splitNumber, hc]
  rw [hsplit]
  exact ite_self _

theorem readOpen_of_split {s : Split} (hs : s = some (text, rest))
    (ht : allowed.contains t = true) : readOpen allowed t s = some (t, text, rest) := by
  rw [readOpen, if_pos ht, hs]
  rfl

/-- A string is read up to its closing quote, whatever follows. -/
theorem readTerminal_of_string (hallowed : allowed.contains .string = true)
    (htext : Terminal.Spells .string text) :
    readTerminal allowed (text ++ rest) = some (.string, text, rest) := by
  have hread := readOpen_of_split (splitString_of_spells htext rest) hallowed
  obtain ⟨body, rfl, -⟩ := htext
  have hword : readWord allowed ('"' :: (body ++ ['"']) ++ rest) = none :=
    readWord_eq_none (by decide)
  simp only [readTerminal, List.findSome?_cons, id_eq, hword, hread]

variable (hrest : Boundary rest)

include hrest

theorem readWord_of_name (hallowed : allowed.contains .name = true)
    (htext : Terminal.Spells .name text) (hkeyword : Keyword.ofText? text = none) :
    readWord allowed (text ++ rest) = some (.name, text, rest) := by
  rw [readWord, if_pos hallowed, readName, splitName_of_spells hrest htext]
  simp [hkeyword]

theorem readWord_of_keyword {k : Keyword} (hallowed : allowed.contains (.word k) = true) :
    readWord allowed (k.text.toList ++ rest) = some (.word k, k.text.toList, rest) := by
  unfold readWord
  split
  · rw [readName, splitName_of_spells hrest k.spells_name]
    simp [Keyword.ofText?_text, Option.filter, hallowed]
  · have hplain : ∀ k ∈ Keyword.all, isPlain k.text.toList = true := by decide
    have hordered : Keyword.all.Pairwise fun a b => ¬ a.text.toList <+: b.text.toList := by decide
    have hk : k ∈ Keyword.all.filter fun k => allowed.contains (.word k) :=
      List.mem_filter.mpr ⟨k.mem_all, hallowed⟩
    exact findSome?_splitText hrest (fun k => k.text.toList)
      (fun k split => (Terminal.word k, split.1, split.2))
      (fun k hk => hplain k (List.mem_filter.mp hk).1) (hordered.filter _) hk

theorem readMark_of_allowed {m : Mark} (hallowed : allowed.contains (.mark m) = true) :
    readMark allowed ([m.char] ++ rest) = some (.mark m, [m.char], rest) := by
  have hplain : ∀ m ∈ Mark.all, isPlain [m.char] = true := by decide
  have hordered : Mark.all.Pairwise fun a b => ¬ [a.char] <+: [b.char] := by decide
  have hm : m ∈ Mark.all.filter fun m => allowed.contains (.mark m) :=
    List.mem_filter.mpr ⟨m.mem_all, hallowed⟩
  exact findSome?_splitText hrest (fun m => [m.char])
    (fun m split => (Terminal.mark m, split.1, split.2))
    (fun m hm => hplain m (List.mem_filter.mp hm).1) (hordered.filter _) hm

/-- No operator is a mark, nor the front of one. -/
theorem readOperator_eq_none (allowed : TerminalSet) (m : Mark) :
    readOpen allowed .operator (splitOperator ([m.char] ++ rest)) = none := by
  have hsplit : splitOperator ([m.char] ++ rest) = none := by
    refine List.findSome?_eq_none_iff.mpr fun o ho => ?_
    rw [Option.eq_none_iff_forall_ne_some]
    rintro ⟨front, tail⟩ hfound
    have hnot : ∀ m ∈ Mark.all, ∀ o ∈ operators, ¬ o.toList <+: [m.char] := by decide
    exact hnot m m.mem_all o ho (prefix_of_splitText hrest (isPlain_operators o ho) hfound)
  rw [hsplit]
  exact ite_self _

/-- At a boundary, an allowed terminal is read from any of its texts, if no keyword is written for
a name. -/
theorem readTerminal_of_spells (hallowed : allowed.contains t = true) (ht : t ≠ .endOfText)
    (htext : t.Spells text) (hname : t = .name → Keyword.ofText? text = none) :
    readTerminal allowed (text ++ rest) = some (t, text, rest) := by
  cases t with
  | name => simp only [readTerminal, List.findSome?_cons, id_eq,
      readWord_of_name hrest hallowed htext (hname rfl)]
  | word k =>
    cases htext
    simp only [readTerminal, List.findSome?_cons, id_eq, readWord_of_keyword hrest hallowed]
  | string => exact readTerminal_of_string hallowed htext
  | number =>
    have hread := readOpen_of_split (splitNumber_of_spells hrest htext) hallowed
    obtain ⟨hne, hdigits⟩ := htext
    obtain ⟨c, cs, rfl⟩ := List.exists_cons_of_ne_nil hne
    have hc := hdigits c List.mem_cons_self
    have hquote : c ≠ '"' := by
      rintro rfl
      cases hc
    rw [List.cons_append] at hread ⊢
    simp only [readTerminal, List.findSome?_cons, id_eq,
      readWord_eq_none (isNameStart_of_isDigit hc), readString_eq_none hquote, hread]
  | operator =>
    have hread := readOpen_of_split (splitOperator_of_spells hrest htext) hallowed
    obtain ⟨o, ho, rfl⟩ := htext
    have hhead : ∀ o ∈ operators, o.toList.head?.all fun c =>
        !isNameStart c && c != '"' && !c.isDigit := by decide
    obtain ⟨c, cs, hcs, -⟩ := Terminal.Spells.head (t := .operator) ⟨o, ho, rfl⟩ nofun
    have hc := hhead o ho
    simp only [hcs, List.head?_cons, Option.all_some, Bool.and_eq_true, Bool.not_eq_true',
      bne_iff_ne] at hc
    obtain ⟨⟨hstart, hquote⟩, hdigit⟩ := hc
    rw [hcs, List.cons_append] at hread ⊢
    simp only [readTerminal, List.findSome?_cons, id_eq, readWord_eq_none hstart,
      readString_eq_none hquote, readNumber_eq_none hdigit, hread]
  | endOfText => exact absurd rfl ht
  | mark m =>
    cases htext
    have hread := readMark_of_allowed hrest hallowed
    have hoperator := readOperator_eq_none hrest allowed m
    have hhead : ∀ m ∈ Mark.all,
        isNameStart m.char = false ∧ m.char ≠ '"' ∧ m.char.isDigit = false := by decide
    obtain ⟨hstart, hquote, hdigit⟩ := hhead m m.mem_all
    rw [List.cons_append] at hread hoperator ⊢
    simp only [readTerminal, List.findSome?_cons, id_eq, readWord_eq_none hstart,
      readString_eq_none hquote, readNumber_eq_none hdigit, hoperator, hread]

end Unread

/-- A token with the layout in front of it. -/
structure Piece where
  gap : List Char
  token : Token

/-- Layout, and a text of the terminal of the token, which is not the end of the text. -/
def Piece.WellWritten (q : Piece) : Prop :=
  Layout q.gap ∧ q.token.terminal ≠ .endOfText ∧ q.token.terminal.Spells q.token.text.toList

/-- Where the token of a piece stands if the piece begins at `p`. -/
def Piece.extentAt (q : Piece) (p : Position) : Extent :=
  ⟨p.after q.gap, (p.after q.gap).after q.token.text.toList⟩

/-- The layout of a piece is skipped, and nothing of its token. -/
theorem Piece.WellWritten.skipLayout_eq {q : Piece} (hq : q.WellWritten) (rest : List Char)
    (p : Position) :
    skipLayout false p (q.gap ++ (q.token.text.toList ++ rest)) =
      (p.after q.gap, q.token.text.toList ++ rest) := by
  obtain ⟨hgap, hend, hspells⟩ := hq
  obtain ⟨c, cs, htext, hc⟩ := hspells.head hend
  have hunlaid : Unlaid (q.token.text.toList ++ rest) := by
    rw [htext]
    rintro x ⟨⟩
    exact hc
  rw [skipLayout_append hgap, skipLayout_of_unlaid hunlaid]

/-- The text of several pieces, with more layout behind the last one. -/
def written : List Piece → List Char → List Char
  | [], final => final
  | q :: pieces, final => q.gap ++ (q.token.text.toList ++ written pieces final)

theorem written_append (pieces more : List Piece) (final : List Char) :
    written (pieces ++ more) final = written pieces (written more final) := by
  induction pieces with
  | nil => rfl
  | cons q pieces ih => simp only [List.cons_append, written, ih]

namespace Remaining

variable {r r' : Remaining} {allowed : TerminalSet}

/-- A token that is read has only layout in front of it and covers its own text; at the end of the
text only layout was left. -/
theorem next_ok {t : Token} (h : r.next allowed = .ok (t, r')) :
    (t.terminal = .endOfText ∧ FinalLayout r.chars) ∨
      ∃ gap, Piece.WellWritten ⟨gap, t⟩ ∧ r.chars = written [⟨gap, t⟩] r'.chars ∧
        t.extent = Piece.extentAt ⟨gap, t⟩ r.position ∧ r'.position = t.extent.stop := by
  have hskipped := (skipLayout_skipped r.chars).1 r.position
  cases hcs : skipLayout false r.position r.chars with
  | mk p cs =>
    rw [hcs] at hskipped
    simp only [next, hcs] at h
    cases cs with
    | nil =>
      cases h
      refine Or.inl ⟨rfl, ?_⟩
      generalize r.chars = chars at hskipped
      cases hskipped with
      | all hfinal => exact hfinal
      | upTo hgap rest =>
        rw [List.append_nil]
        exact .closed hgap
    | cons c cs =>
      refine Or.inr ?_
      generalize r.chars = chars at hskipped hcs
      cases hskipped with
      | @upTo gap hgap rest =>
        cases hread : readTerminal allowed (c :: cs) with
        | some reading =>
          obtain ⟨u, front, rest⟩ := reading
          simp only [hread] at h
          cases h
          obtain ⟨hsplit, hspells, -, hend⟩ := readTerminal_eq_some hread
          have hunlaid : Unlaid (c :: cs) := by
            obtain ⟨x, xs, hfront, hx⟩ := hspells.head hend
            rw [hsplit, hfront]
            rintro y ⟨⟩
            exact hx
          rw [skipLayout_append hgap, skipLayout_of_unlaid hunlaid] at hcs
          cases hcs
          refine ⟨gap, ⟨hgap, hend, by simpa using hspells⟩, ?_, ?_, rfl⟩
          · rw [hsplit]
            simp [written]
          · simp [Piece.extentAt]
        | none =>
          cases hany : readTerminal anyTerminal (c :: cs) <;> simp only [hread, hany] at h <;>
            cases h

/-- A piece is read as its token, in its place, where nothing runs into it from behind. -/
theorem next_of_piece {q : Piece} (hq : q.WellWritten)
    (hname : q.token.terminal = .name → Keyword.ofText? q.token.text.toList = none)
    (hallowed : allowed.contains q.token.terminal = true) {rest : List Char}
    (hrest : Boundary rest) (hr : r.chars = written [q] rest) :
    r.next allowed =
      .ok (⟨q.token.terminal, q.token.text, ⟨r.position.after q.gap,
          (r.position.after q.gap).after q.token.text.toList⟩⟩,
        ⟨rest, (r.position.after q.gap).after q.token.text.toList, r.position.after q.gap⟩) := by
  have hskip := hq.skipLayout_eq rest r.position
  obtain ⟨-, hend, hspells⟩ := hq
  have hread := readTerminal_of_spells hrest hallowed hend hspells hname
  obtain ⟨c, cs, htext, -⟩ := hspells.head hend
  rw [written, written] at hr
  rw [← hr] at hskip
  simp only [next, hskip, hread]
  rw [htext, List.cons_append]
  simp [← htext]

/-- Where only layout is left the end of the text is read, whatever is allowed. -/
theorem next_of_final (hr : FinalLayout r.chars) :
    ∃ r', ∀ allowed,
      r.next allowed = .ok (⟨.endOfText, "", ⟨r.lastToken, r.lastToken⟩⟩, r') := by
  have hskip := skipLayout_of_final hr r.position
  cases hcs : skipLayout false r.position r.chars with
  | mk p cs =>
    rw [hcs] at hskip
    cases hskip
    exact ⟨⟨[], p, r.lastToken⟩, fun allowed => by simp only [next, hcs]⟩

end Remaining

end CheckedExceptions.Language
