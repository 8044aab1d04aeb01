import CheckedExceptions.Proofs.Syntax.RoundTrip

/-!
The places of a derivation that is read from a text. How the tokens of a text are written decides
where each of them stands, so a derivation whose tokens stand where they are written is read from
its text as it is, with its places.
-/
namespace CheckedExceptions.Language

section Derivations

theorem Token.eq_of_unplaced {t u : Token} (h : t.unplaced = u.unplaced)
    (hextent : t.extent = u.extent) : t = u := by
  obtain ⟨terminal, text, extent⟩ := t
  obtain ⟨rfl, rfl, -⟩ := Token.mk.inj h
  cases hextent
  rfl

mutual

theorem Derivation.tokens_unplaced : ∀ d : Derivation,
    d.unplaced.tokens = d.tokens.map Token.unplaced
  | .leaf _ => rfl
  | .node _ children => Derivation.tokensAll_unplaced children

theorem Derivation.tokensAll_unplaced : ∀ ds : List Derivation,
    tokensAll (unplacedAll ds) = (tokensAll ds).map Token.unplaced
  | [] => rfl
  | d :: ds => by
    rw [unplacedAll, tokensAll, tokensAll, List.map_append, tokens_unplaced d,
      tokensAll_unplaced ds]

end

theorem Derivation.length_tokens_eq {d e : Derivation} (h : d.unplaced = e.unplaced) :
    d.tokens.length = e.tokens.length := by
  have htokens := congrArg tokens h
  rw [tokens_unplaced, tokens_unplaced] at htokens
  simpa using congrArg List.length htokens

mutual

/-- A derivation is made of its productions and its tokens. -/
theorem Derivation.eq_of_unplaced : ∀ {d e : Derivation}, d.unplaced = e.unplaced →
    d.tokens = e.tokens → d = e
  | .leaf t, .leaf u, _, htokens => congrArg leaf (List.cons.inj htokens).1
  | .leaf _, .node _ _, h, _ => by cases h
  | .node _ _, .leaf _, h, _ => by cases h
  | .node p ds, .node p' es, h, htokens => by
    obtain ⟨rfl, hchildren⟩ := Derivation.node.inj h
    rw [Derivation.eq_of_unplacedAll hchildren htokens]

theorem Derivation.eq_of_unplacedAll : ∀ {ds es : List Derivation},
    unplacedAll ds = unplacedAll es → tokensAll ds = tokensAll es → ds = es
  | [], [], _, _ => rfl
  | [], _ :: _, h, _ => by cases h
  | _ :: _, [], h, _ => by cases h
  | d :: ds, e :: es, h, htokens => by
    obtain ⟨hfirst, hrest⟩ := List.cons.inj h
    obtain ⟨htokens, htokens'⟩ := List.append_inj htokens (length_tokens_eq hfirst)
    rw [eq_of_unplaced hfirst htokens, eq_of_unplacedAll hrest htokens']

end

end Derivations

section Places

/-- Tokens that are written alike in one text and stand where they are written stand in the same
places. -/
theorem tokens_eq_of_placed {pieces pieces' : List Piece} {final final' : List Char} {p : Position}
    (hpieces : ∀ q ∈ pieces, q.WellWritten) (hpieces' : ∀ q ∈ pieces', q.WellWritten)
    (hplaced : Placed p pieces) (hplaced' : Placed p pieces')
    (htokens : (pieces.map (·.token)).map Token.unplaced =
      (pieces'.map (·.token)).map Token.unplaced)
    (hwritten : written pieces final = written pieces' final') :
    pieces.map (·.token) = pieces'.map (·.token) := by
  induction pieces generalizing pieces' p with
  | nil =>
    cases pieces' with
    | nil => rfl
    | cons q' pieces' => cases htokens
  | cons q pieces ih =>
    cases pieces' with
    | nil => cases htokens
    | cons q' pieces' =>
      obtain ⟨hq, hpieces⟩ := List.forall_mem_cons.mp hpieces
      obtain ⟨hq', hpieces'⟩ := List.forall_mem_cons.mp hpieces'
      obtain ⟨hextent, hplaced⟩ := hplaced
      obtain ⟨hextent', hplaced'⟩ := hplaced'
      obtain ⟨hfirst, hrest⟩ := List.cons.inj htokens
      obtain ⟨-, htext, -⟩ := Token.mk.inj hfirst
      -- Both tokens begin where the layout in front of them ends.
      have hskip := hq.skipLayout_eq (written pieces final) p
      rw [← written, hwritten, written, hq'.skipLayout_eq] at hskip
      obtain ⟨hstart, hbehind⟩ := Prod.mk.inj hskip
      rw [htext] at hbehind
      have hextents : q.token.extent = q'.token.extent := by
        rw [hextent, hextent', Piece.extentAt, Piece.extentAt, htext, hstart]
      have htoken : q.token = q'.token := Token.eq_of_unplaced hfirst hextents
      rw [← hextents] at hplaced'
      rw [List.map_cons, List.map_cons, htoken,
        ih hpieces hpieces' hplaced hplaced' hrest (List.append_cancel_left hbehind).symm]

instance Placed.decidable : (p : Position) → (pieces : List Piece) → Decidable (Placed p pieces)
  | _, [] => .isTrue trivial
  | _, q :: pieces =>
    have := Placed.decidable q.token.extent.stop pieces
    inferInstanceAs (Decidable (_ ∧ _))

/-- Pieces with the tokens of a derivation of the start symbol, each in its place, are read as that
derivation. -/
theorem derive_of_placed {d : Derivation} (hd : Derives Grammar.productions d)
    (hstart : d.symbol = .nonTerminal .start) {pieces : List Piece}
    (htokens : pieces.map (·.token) = d.tokens) (hplaced : Placed .first pieces)
    (hpieces : ∀ q ∈ pieces, q.WellWritten ∧ q.token.Writable)
    (hgaps : ∀ q ∈ pieces.tail, q.gap ≠ []) {final : List Char} (hfinal : FinalLayout final) :
    derive (String.ofList (written pieces final)) = .ok d := by
  obtain ⟨d', hderive, hunplaced⟩ := derive_of_written hd hstart
    (congrArg (List.map Token.unplaced) htokens) hpieces hgaps hfinal
  obtain ⟨pieces', final', hpieces', htokens', -, hsource, hplaced'⟩ :=
    spelledInPlace_of_derive hderive
  rw [String.toList_ofList] at hsource
  have hsame : (pieces'.map (·.token)).map Token.unplaced =
      (pieces.map (·.token)).map Token.unplaced := by
    rw [htokens', htokens, ← Derivation.tokens_unplaced, hunplaced, Derivation.tokens_unplaced]
  have hplaces := tokens_eq_of_placed hpieces' (fun q hq => (hpieces q hq).1) hplaced' hplaced
    hsame hsource.symm
  rw [htokens', htokens] at hplaces
  rw [hderive, Derivation.eq_of_unplaced hunplaced hplaces]

end Places

end CheckedExceptions.Language
