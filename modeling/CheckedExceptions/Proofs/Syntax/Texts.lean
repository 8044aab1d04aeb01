import CheckedExceptions.Language.Lexer
import Mathlib.Data.List.TakeWhile

/-!
The texts of the terminals and of layout, told without a reader. Reading the front of a text splits
off a text of the terminal that is read, and skipping layout splits off layout. The other way round,
a text of a terminal is read as a whole wherever layout or nothing follows it, if the terminal is
allowed there: no other terminal is read in its place, and nothing that follows is read with it.
-/
namespace CheckedExceptions.Language

/-- The inside of a string. A backslash takes any character with it but a line feed. -/
inductive StringBody : List Char → Prop
  | nil : StringBody []
  | plain {c : Char} {cs : List Char} (hquote : c ≠ '"') (hbackslash : c ≠ '\\')
      (hcs : StringBody cs) : StringBody (c :: cs)
  | escape {c : Char} {cs : List Char} (hc : c ≠ '\n') (hcs : StringBody cs) :
      StringBody ('\\' :: c :: cs)

/-- The texts of a terminal. -/
def Terminal.Spells : Terminal → List Char → Prop
  | .name, cs => ∃ c rest, cs = c :: rest ∧ isNameStart c = true ∧ ∀ x ∈ rest, isNameChar x = true
  | .string, cs => ∃ body, cs = '"' :: (body ++ ['"']) ∧ StringBody body
  | .number, cs => cs ≠ [] ∧ ∀ c ∈ cs, c.isDigit = true
  | .operator, cs => ∃ o ∈ operators, cs = o.toList
  | .endOfText, cs => cs = []
  | .mark m, cs => cs = [m.char]
  | .word k, cs => cs = k.text.toList

/-- White space and comments, each comment with the line feed that ends it. -/
inductive Layout : List Char → Prop
  | nil : Layout []
  | blank {c : Char} {cs : List Char} (hc : isLayout c = true) (hcs : Layout cs) : Layout (c :: cs)
  | comment {body cs : List Char} (hbody : '\n' ∉ body) (hcs : Layout cs) :
      Layout ('/' :: '/' :: (body ++ '\n' :: cs))

/-- Layout at the end of a text, where the last comment may end with the text. -/
inductive FinalLayout : List Char → Prop
  | closed {cs : List Char} (hcs : Layout cs) : FinalLayout cs
  | comment {cs body : List Char} (hcs : Layout cs) (hbody : '\n' ∉ body) :
      FinalLayout (cs ++ '/' :: '/' :: body)

theorem FinalLayout.blank {c : Char} {cs : List Char} (hc : isLayout c = true)
    (h : FinalLayout cs) : FinalLayout (c :: cs) := by
  cases h with
  | closed hcs => exact .closed (.blank hc hcs)
  | comment hcs hbody =>
    rw [← List.cons_append]
    exact .comment (.blank hc hcs) hbody

theorem FinalLayout.afterComment {body cs : List Char} (hbody : '\n' ∉ body)
    (h : FinalLayout cs) : FinalLayout ('/' :: '/' :: (body ++ '\n' :: cs)) := by
  cases h with
  | closed hcs => exact .closed (.comment hbody hcs)
  | @comment cs last hcs hlast =>
    have hwhole : FinalLayout (('/' :: '/' :: (body ++ '\n' :: cs)) ++ '/' :: '/' :: last) :=
      .comment (.comment hbody hcs) hlast
    simpa using hwhole

section Boundaries

/-- The characters that layout begins with. -/
def layoutStarts : List Char := [' ', '\t', '\x0c', '\r', '\n', '/']

theorem mem_layoutStarts {c : Char} : c ∈ layoutStarts ↔ isLayout c = true ∨ c = '/' := by
  simp only [layoutStarts, isLayout, List.mem_cons, List.not_mem_nil, Bool.or_eq_true,
    decide_eq_true_eq, or_false, or_assoc]

/-- Nothing, or layout, begins the text, so that whatever stands in front of it ends there. -/
def Boundary (cs : List Char) : Prop := ∀ c ∈ cs.head?, c ∈ layoutStarts

/-- No layout begins the text. -/
def Unlaid (cs : List Char) : Prop := ∀ c ∈ cs.head?, c ∉ layoutStarts

theorem boundary_nil : Boundary [] := fun _ hc => by cases hc

theorem Layout.boundary {gap : List Char} (hgap : Layout gap) {rest : List Char}
    (hrest : gap = [] → Boundary rest) : Boundary (gap ++ rest) := by
  cases hgap with
  | nil => exact hrest rfl
  | blank hc _ =>
    rintro x ⟨⟩
    exact mem_layoutStarts.mpr (Or.inl hc)
  | comment _ _ =>
    rintro x ⟨⟩
    exact mem_layoutStarts.mpr (Or.inr rfl)

/-- A run of characters of a class ends at a boundary. -/
theorem Boundary.split_while {front rest : List Char} (hrest : Boundary rest) {p : Char → Bool}
    (hp : layoutStarts.any p = false) (hfront : ∀ x ∈ front, p x = true) :
    (front ++ rest).takeWhile p = front ∧ (front ++ rest).dropWhile p = rest := by
  rw [List.takeWhile_append_of_pos hfront, List.dropWhile_append_of_pos hfront]
  cases rest with
  | nil => simp
  | cons c cs => simp [List.any_eq_false.mp hp c (hrest c rfl)]

section Heads

variable {c : Char} {text : List Char} {t : Terminal}

theorem isNameStart_of_isDigit (hc : c.isDigit = true) : isNameStart c = false := by
  have hdigit : c.val ≤ '9'.val := of_decide_eq_true (Bool.and_eq_true_iff.mp hc).2
  have hnine : '9'.val.toNat = 57 := rfl
  rw [UInt32.le_iff_toNat_le, hnine] at hdigit
  have hupper : c.isUpper = false := by
    refine decide_eq_false fun hletter => ?_
    have hfirst : 'A'.val.toNat ≤ c.val.toNat := UInt32.le_iff_toNat_le.mp hletter.1
    have hcode : 'A'.val.toNat = 65 := rfl
    omega
  have hlower : c.isLower = false := by
    refine Bool.eq_false_iff.mpr fun hletter => ?_
    have hfirst : 'a'.val.toNat ≤ c.val.toNat :=
      UInt32.le_iff_toNat_le.mp (of_decide_eq_true (Bool.and_eq_true_iff.mp hletter).1)
    have hcode : 'a'.val.toNat = 97 := rfl
    omega
  have hunderscore : c ≠ '_' := by
    rintro rfl
    cases hc
  have halpha : c.isAlpha = (c.isUpper || c.isLower) := rfl
  rw [isNameStart, halpha, hupper, hlower, decide_eq_false hunderscore]
  rfl

theorem not_mem_layoutStarts {p : Char → Bool} (hp : layoutStarts.any p = false)
    (hc : p c = true) : c ∉ layoutStarts :=
  fun hmem => List.any_eq_false.mp hp c hmem hc

/-- No layout begins inside the text. -/
def isPlain (cs : List Char) : Bool := cs.all (· ∉ layoutStarts)

theorem isPlain_operators : ∀ o ∈ operators, isPlain o.toList = true := by decide

/-- No name has a dot in it, so a dot can divide the parts of a qualified name. -/
theorem Terminal.Spells.undotted (htext : Terminal.name.Spells text) : '.' ∉ text := by
  obtain ⟨c, cs, rfl, hc, hcs⟩ := htext
  intro hdot
  rcases List.mem_cons.mp hdot with rfl | hmem
  · exact absurd hc (by decide)
  · exact absurd (hcs _ hmem) (by decide)

/-- The texts of the terminals begin outside layout. -/
theorem Terminal.Spells.head (htext : t.Spells text) (ht : t ≠ .endOfText) :
    ∃ c cs, text = c :: cs ∧ c ∉ layoutStarts := by
  cases t with
  | name =>
    obtain ⟨c, cs, rfl, hc, -⟩ := htext
    exact ⟨c, cs, rfl, not_mem_layoutStarts (by decide) hc⟩
  | string =>
    obtain ⟨body, rfl, -⟩ := htext
    exact ⟨_, _, rfl, by decide⟩
  | number =>
    obtain ⟨hne, hdigits⟩ := htext
    obtain ⟨c, cs, rfl⟩ := List.exists_cons_of_ne_nil hne
    exact ⟨c, cs, rfl, not_mem_layoutStarts (by decide) (hdigits c List.mem_cons_self)⟩
  | operator =>
    obtain ⟨o, ho, rfl⟩ := htext
    have hne : ∀ o ∈ operators, o.toList ≠ [] := by decide
    obtain ⟨c, cs, hcs⟩ := List.exists_cons_of_ne_nil (hne o ho)
    have hplain := isPlain_operators o ho
    rw [isPlain, hcs, List.all_cons, Bool.and_eq_true, decide_eq_true_eq] at hplain
    exact ⟨c, cs, hcs, hplain.1⟩
  | endOfText => exact absurd rfl ht
  | mark m =>
    cases htext
    exact ⟨_, _, rfl, by cases m <;> decide⟩
  | word k =>
    cases htext
    cases k <;> exact ⟨_, _, rfl, by decide⟩

end Heads

end Boundaries

section Skipping

/-- A comment is skipped up to and with its line feed. -/
theorem skipLayout_comment {body : List Char} (hbody : '\n' ∉ body) (p : Position)
    (cs : List Char) :
    skipLayout true p (body ++ '\n' :: cs) = skipLayout false (p.after (body ++ ['\n'])) cs := by
  induction body generalizing p with
  | nil => rfl
  | cons c body ih =>
    rw [List.mem_cons, not_or] at hbody
    have hne : c ≠ '\n' := Ne.symm hbody.1
    simp only [List.cons_append, skipLayout, ↓reduceIte, hne, ne_eq, not_false_eq_true,
      decide_true]
    exact ih hbody.2 (p.next c)

theorem skipLayout_append {gap : List Char} (hgap : Layout gap) (cs : List Char) (p : Position) :
    skipLayout false p (gap ++ cs) = skipLayout false (p.after gap) cs := by
  induction hgap generalizing p with
  | nil => rfl
  | @blank c gap hc _ ih =>
    simp only [List.cons_append, skipLayout, hc, Bool.false_eq_true, ↓reduceIte]
    exact ih (p.next c)
  | @comment body gap hbody _ ih =>
    have hslash : isLayout '/' = false := by decide
    have hinside : '\n' ∉ '/' :: body := by
      rw [List.mem_cons, not_or]
      exact ⟨by decide, hbody⟩
    simp only [List.cons_append, List.append_assoc, skipLayout, hslash, Bool.false_eq_true,
      ↓reduceIte, List.head?_cons, and_self]
    have hcomment := skipLayout_comment hinside (p.next '/') (gap ++ cs)
    simp only [List.cons_append, skipLayout, ↓reduceIte] at hcomment
    rw [hcomment, ih]
    simp [Position.after]

theorem skipLayout_of_unlaid {cs : List Char} (hcs : Unlaid cs) (p : Position) :
    skipLayout false p cs = (p, cs) := by
  cases cs with
  | nil => rfl
  | cons c rest =>
    have hc := hcs c rfl
    rw [mem_layoutStarts, not_or, Bool.not_eq_true] at hc
    simp only [skipLayout, hc, Bool.false_eq_true, ↓reduceIte, false_and]

theorem skipLayout_last_comment {body : List Char} (hbody : '\n' ∉ body) (p : Position) :
    (skipLayout true p body).2 = [] := by
  induction body generalizing p with
  | nil => rfl
  | cons c body ih =>
    rw [List.mem_cons, not_or] at hbody
    have hne : c ≠ '\n' := Ne.symm hbody.1
    simp only [skipLayout, ↓reduceIte, hne, ne_eq, not_false_eq_true, decide_true]
    exact ih hbody.2 (p.next c)

theorem skipLayout_of_final {cs : List Char} (hcs : FinalLayout cs) (p : Position) :
    (skipLayout false p cs).2 = [] := by
  cases hcs with
  | closed hcs =>
    have hskip := skipLayout_append hcs [] p
    rw [List.append_nil] at hskip
    rw [hskip]
    rfl
  | @comment cs body hcs hbody =>
    have hinside : '\n' ∉ '/' :: body := by
      rw [List.mem_cons, not_or]
      exact ⟨by decide, hbody⟩
    rw [skipLayout_append hcs]
    exact skipLayout_last_comment hinside _

/-- What is skipped is layout, up to the end of the text or up to some point. -/
inductive Skipped : List Char → List Char → Prop
  | all {cs : List Char} (hcs : FinalLayout cs) : Skipped cs []
  | upTo {gap : List Char} (hgap : Layout gap) (rest : List Char) : Skipped (gap ++ rest) rest

theorem Skipped.blank {c : Char} {cs rest : List Char} (hc : isLayout c = true)
    (h : Skipped cs rest) : Skipped (c :: cs) rest := by
  cases h with
  | all hcs => exact .all (hcs.blank hc)
  | upTo hgap rest =>
    rw [← List.cons_append]
    exact .upTo (.blank hc hgap) rest

theorem Skipped.afterComment {body cs rest : List Char} (hbody : '\n' ∉ body)
    (h : Skipped cs rest) : Skipped ('/' :: '/' :: (body ++ '\n' :: cs)) rest := by
  cases h with
  | all hcs => exact .all (hcs.afterComment hbody)
  | @upTo gap hgap rest =>
    have hwhole : Skipped (('/' :: '/' :: (body ++ '\n' :: gap)) ++ rest) rest :=
      .upTo (.comment hbody hgap) rest
    simpa using hwhole

/-- Both modes at once. In a comment, all of it but its first slash is in `body`, which has been
read, or follows. -/
theorem skipLayout_skipped (cs : List Char) :
    (∀ p, Skipped cs (skipLayout false p cs).2) ∧
      ∀ p body, '\n' ∉ body → (body ++ cs).head? = some '/' →
        Skipped ('/' :: (body ++ cs)) (skipLayout true p cs).2 := by
  induction cs with
  | nil =>
    refine ⟨fun p => .all (.closed .nil), fun p body hbody hhead => .all ?_⟩
    rw [List.append_nil] at hhead ⊢
    obtain ⟨body, rfl⟩ := List.head?_eq_some_iff.mp hhead
    exact .comment .nil fun hmem => hbody (List.mem_cons_of_mem _ hmem)
  | cons c cs ih =>
    obtain ⟨houtside, hinside⟩ := ih
    constructor
    · intro p
      simp only [skipLayout, Bool.false_eq_true, ↓reduceIte]
      split
      · rename_i hc
        exact (houtside _).blank hc
      · split
        · rename_i hslashes
          obtain ⟨rfl, hhead⟩ := hslashes
          exact hinside _ [] List.not_mem_nil hhead
        · exact .upTo .nil (c :: cs)
    · intro p body hbody hhead
      simp only [skipLayout, ↓reduceIte]
      by_cases hc : c = '\n'
      · subst hc
        cases body with
        | nil => cases hhead
        | cons x body =>
          cases hhead
          exact (houtside _).afterComment fun hmem => hbody (List.mem_cons_of_mem _ hmem)
      · have hmore : '\n' ∉ body ++ [c] := by
          simp [hbody, Ne.symm hc]
        have hrest := hinside (p.next c) (body ++ [c]) hmore (by simpa using hhead)
        simpa [hc] using hrest

end Skipping

section Splitting

variable {cs front rest : List Char}

theorem splitName_eq_some (h : splitName cs = some (front, rest)) :
    cs = front ++ rest ∧ Terminal.Spells .name front := by
  cases cs with
  | nil => cases h
  | cons c cs =>
    rw [splitName] at h
    split at h
    · rename_i hc
      cases h
      refine ⟨?_, c, _, rfl, hc, fun x hx => List.mem_takeWhile_imp hx⟩
      rw [List.cons_append, List.takeWhile_append_dropWhile]
    · cases h

theorem splitNumber_eq_some (h : splitNumber cs = some (front, rest)) :
    cs = front ++ rest ∧ Terminal.Spells .number front := by
  cases cs with
  | nil => cases h
  | cons c cs =>
    rw [splitNumber] at h
    split at h
    · rename_i hc
      cases h
      refine ⟨?_, List.cons_ne_nil _ _, List.forall_mem_cons.mpr ⟨hc, fun x hx => ?_⟩⟩
      · rw [List.cons_append, List.takeWhile_append_dropWhile]
      · exact List.mem_takeWhile_imp hx
    · cases h

theorem splitStringBody_eq_some (h : splitStringBody cs = some (front, rest)) :
    ∃ body, front = body ++ ['"'] ∧ StringBody body ∧ cs = front ++ rest := by
  fun_induction splitStringBody cs generalizing front with
  | case1 => cases h
  | case2 cs =>
    cases h
    exact ⟨[], rfl, .nil, rfl⟩
  | case3 cs => cases h
  | case4 c cs hc ih =>
    obtain ⟨⟨inner, rest'⟩, hinner, heq⟩ := Option.map_eq_some_iff.mp h
    cases heq
    obtain ⟨body, rfl, hbody, rfl⟩ := ih hinner
    exact ⟨_, rfl, .escape hc hbody, rfl⟩
  | case5 => cases h
  | case6 c cs hquote _ hbackslash ih =>
    obtain ⟨⟨inner, rest'⟩, hinner, heq⟩ := Option.map_eq_some_iff.mp h
    cases heq
    obtain ⟨body, rfl, hbody, rfl⟩ := ih hinner
    exact ⟨_, rfl, .plain hquote hbackslash hbody, rfl⟩

theorem splitStringBody_of_body {body : List Char} (h : StringBody body) (rest : List Char) :
    splitStringBody (body ++ '"' :: rest) = some (body ++ ['"'], rest) := by
  induction h with
  | nil => rfl
  | @plain c cs hquote hbackslash _ ih =>
    rw [List.cons_append, splitStringBody]
    · simp [ih, hbackslash]
    · exact hquote
    · intro c' cs' hc
      exact absurd hc hbackslash
  | @escape c cs hc _ ih =>
    rw [List.cons_append, List.cons_append, splitStringBody]
    simp [ih, hc]

theorem splitString_eq_some (h : splitString cs = some (front, rest)) :
    cs = front ++ rest ∧ Terminal.Spells .string front := by
  unfold splitString at h
  split at h
  · obtain ⟨⟨inner, rest'⟩, hinner, heq⟩ := Option.map_eq_some_iff.mp h
    cases heq
    obtain ⟨body, rfl, hbody, rfl⟩ := splitStringBody_eq_some hinner
    exact ⟨rfl, body, rfl, hbody⟩
  · cases h

theorem splitText_eq_some {xs : List Char} :
    splitText xs cs = some (front, rest) ↔ front = xs ∧ cs = xs ++ rest := by
  fun_induction splitText xs cs generalizing front with
  | case1 cs => simp [eq_comm]
  | case2 x xs => simp
  | case3 x xs cs ih =>
    constructor
    · intro h
      obtain ⟨⟨inner, rest'⟩, hinner, heq⟩ := Option.map_eq_some_iff.mp h
      cases heq
      obtain ⟨rfl, rfl⟩ := ih.mp hinner
      exact ⟨rfl, rfl⟩
    · rintro ⟨rfl, hcs⟩
      rw [ih.mpr ⟨rfl, (List.cons.inj hcs).2⟩]
      rfl
  | case4 x xs c cs hne => simp [Ne.symm hne]

theorem splitText_eq_none {x c : Char} {xs : List Char} (h : x ≠ c) :
    splitText (x :: xs) (c :: cs) = none := by
  rw [splitText, if_neg h]

theorem splitOperator_eq_some (h : splitOperator cs = some (front, rest)) :
    cs = front ++ rest ∧ Terminal.Spells .operator front := by
  obtain ⟨o, ho, hsplit⟩ := List.exists_of_findSome?_eq_some h
  obtain ⟨rfl, rfl⟩ := splitText_eq_some.mp hsplit
  exact ⟨rfl, o, ho, rfl⟩

theorem splitString_of_spells {text : List Char} (htext : Terminal.Spells .string text)
    (rest : List Char) : splitString (text ++ rest) = some (text, rest) := by
  obtain ⟨body, rfl, hbody⟩ := htext
  rw [List.cons_append, List.append_assoc, splitString]
  simp [splitStringBody_of_body hbody]

variable {text : List Char} (hrest : Boundary rest)

include hrest

theorem splitName_of_spells (htext : Terminal.Spells .name text) :
    splitName (text ++ rest) = some (text, rest) := by
  obtain ⟨c, cs, rfl, hc, hcs⟩ := htext
  obtain ⟨htake, hdrop⟩ := hrest.split_while (p := isNameChar) (by decide) hcs
  simp only [List.cons_append, splitName, hc, ↓reduceIte, htake, hdrop]

theorem splitNumber_of_spells (htext : Terminal.Spells .number text) :
    splitNumber (text ++ rest) = some (text, rest) := by
  obtain ⟨hne, hdigits⟩ := htext
  cases text with
  | nil => exact absurd rfl hne
  | cons c cs =>
    obtain ⟨hc, hcs⟩ := List.forall_mem_cons.mp hdigits
    obtain ⟨htake, hdrop⟩ := hrest.split_while (p := Char.isDigit) (by decide) hcs
    simp only [List.cons_append, splitNumber, hc, ↓reduceIte, htake, hdrop]

/-- A fixed text with no layout in it cannot reach beyond a boundary. -/
theorem prefix_of_splitText {xs tail : List Char} (hxs : isPlain xs = true)
    (h : splitText xs (text ++ rest) = some (front, tail)) : xs <+: text := by
  obtain ⟨-, heq⟩ := splitText_eq_some.mp h
  rcases List.append_eq_append_iff.mp heq with ⟨more, rfl, hmore⟩ | ⟨more, rfl, hmore⟩
  · cases more with
    | nil => exact ⟨[], by simp⟩
    | cons c more =>
      rw [hmore] at hrest
      have hc := List.all_eq_true.mp hxs c (by simp)
      exact absurd (hrest c rfl) (of_decide_eq_true hc)
  · exact ⟨more, rfl⟩

/-- Among fixed texts, each in front of those that begin it, the whole text is found. -/
theorem findSome?_splitText {α β : Type} (text : α → List Char)
    (result : α → List Char × List Char → β) {l : List α}
    (hplain : ∀ a ∈ l, isPlain (text a) = true)
    (hordered : l.Pairwise fun a b => ¬ text a <+: text b) {a : α} (ha : a ∈ l) :
    l.findSome? (fun b => (splitText (text b) (text a ++ rest)).map (result b)) =
      some (result a (text a, rest)) := by
  induction l with
  | nil => cases ha
  | cons b l ih =>
    rw [List.forall_mem_cons] at hplain
    rw [List.pairwise_cons] at hordered
    rw [List.findSome?_cons]
    rcases List.mem_cons.mp ha with rfl | ha
    · rw [splitText_eq_some.mpr ⟨rfl, rfl⟩]
      rfl
    · have hnone : splitText (text b) (text a ++ rest) = none := by
        rw [Option.eq_none_iff_forall_ne_some]
        rintro ⟨front, tail⟩ hsplit
        exact hordered.1 a ha (prefix_of_splitText hrest hplain.1 hsplit)
      rw [hnone, ih hplain.2 hordered.2 ha]
      rfl

theorem splitOperator_of_spells (htext : Terminal.Spells .operator text) :
    splitOperator (text ++ rest) = some (text, rest) := by
  obtain ⟨o, ho, rfl⟩ := htext
  have hfound := findSome?_splitText hrest String.toList (fun _ split => split)
    isPlain_operators (by decide) ho
  simpa only [splitOperator, Option.map_id_fun', id_eq] using hfound

end Splitting

end CheckedExceptions.Language
