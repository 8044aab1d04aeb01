import CheckedExceptions.Proofs.Syntax.Reading
import CheckedExceptions.Typing.Literal

/-!
Escapes in strings. The value of a string is found by unescaping all quotes and then all
backslashes. In a text at large the first of these can join a backslash to a quote that it does not
escape. Inside a string every quote has a backslash of its own, so the pairs stay where they are,
and the two together do what one pass over the pairs does. Hence every text is the value of the
string that is got by escaping it.
-/
namespace CheckedExceptions.Typing

open CheckedExceptions.Language

/-- The characters that are escaped in a string. -/
def isEscaped (c : Char) : Bool := c = '"' || c = '\\'

/-- One pass over the inside of a string. A backslash in front of a quote or of another backslash is
dropped; any other pair stays, and is not looked into. -/
def decodeOnce : List Char → List Char
  | '\\' :: c :: cs => if isEscaped c then c :: decodeOnce cs else '\\' :: c :: decodeOnce cs
  | c :: cs => c :: decodeOnce cs
  | [] => []

section Passes

variable {c x : Char} {xs : List Char}

theorem unescape_cons (hx : x ≠ '\\') : unescape c (x :: xs) = x :: unescape c xs := by
  rw [unescape]
  intro y ys h
  exact absurd h hx

theorem unescape_pair : unescape c ('\\' :: c :: xs) = c :: unescape c xs := by
  rw [unescape, if_pos rfl]

/-- A backslash stays unless the character stands right behind it. -/
theorem unescape_backslash (hxs : xs.head? ≠ some c) :
    unescape c ('\\' :: xs) = '\\' :: unescape c xs := by
  cases xs with
  | nil => rfl
  | cons y ys =>
    have hne : y ≠ c := fun h => hxs (congrArg some h)
    rw [unescape, if_neg hne]

theorem decodeOnce_cons (hx : x ≠ '\\') : decodeOnce (x :: xs) = x :: decodeOnce xs := by
  rw [decodeOnce]
  intro y ys h
  exact absurd h hx

theorem head?_ne_quote {body : List Char} (h : StringBody body) : body.head? ≠ some '"' := by
  cases h with
  | nil => simp
  | plain hquote _ _ => simpa using hquote
  | escape _ _ => simp

/-- Unescaping the quotes passes over a pair of backslashes: what follows it inside a string is no
quote, which the second backslash could be taken for the escape of. -/
theorem unescape_quote_backslashes {cs : List Char} (hcs : StringBody cs) :
    unescape '"' ('\\' :: '\\' :: cs) = '\\' :: '\\' :: unescape '"' cs := by
  have hinner := unescape_backslash (head?_ne_quote hcs)
  have houter : unescape '"' ('\\' :: '\\' :: cs) = '\\' :: unescape '"' ('\\' :: cs) :=
    unescape_backslash (by simp)
  rw [houter, hinner]

/-- Inside a string, unescaping quotes and then backslashes is the same as one pass. -/
theorem unescape_unescape {body : List Char} (h : StringBody body) :
    unescape '\\' (unescape '"' body) = decodeOnce body := by
  induction h with
  | nil => rfl
  | @plain c cs _ hbackslash _ ih =>
    rw [unescape_cons hbackslash, unescape_cons hbackslash, decodeOnce_cons hbackslash, ih]
  | @escape c cs _ hcs ih =>
    rw [decodeOnce]
    by_cases hquote : c = '"'
    · subst hquote
      have hne : '"' ≠ '\\' := by decide
      rw [unescape_pair, unescape_cons hne, ih]
      rfl
    · by_cases hbackslash : c = '\\'
      · subst hbackslash
        rw [unescape_quote_backslashes hcs, unescape_pair, ih]
        rfl
      · have hfirst : unescape '"' ('\\' :: c :: cs) = '\\' :: c :: unescape '"' cs := by
          rw [unescape_backslash (by simpa using hquote), unescape_cons hbackslash]
        have hescaped : isEscaped c = false := by simp [isEscaped, hquote, hbackslash]
        rw [hfirst, unescape_backslash (by simpa using hbackslash), unescape_cons hbackslash, ih,
          hescaped]
        rfl

end Passes

section Quoting

/-- Each quote and each backslash with a backslash in front of it. -/
def escape (cs : List Char) : List Char :=
  cs.flatMap fun c => if isEscaped c then ['\\', c] else [c]

/-- The string that stands for a text. -/
def quoted (s : String) : String := String.ofList ('"' :: (escape s.toList ++ ['"']))

theorem escape_cons (c : Char) (cs : List Char) :
    escape (c :: cs) = if isEscaped c then '\\' :: c :: escape cs else c :: escape cs := by
  cases h : isEscaped c <;> simp [escape, h]

theorem ne_of_isEscaped_eq_false {c : Char} (h : isEscaped c = false) : c ≠ '"' ∧ c ≠ '\\' := by
  simpa [isEscaped] using h

theorem stringBody_escape (cs : List Char) : StringBody (escape cs) := by
  induction cs with
  | nil => exact .nil
  | cons c cs ih =>
    rw [escape_cons]
    cases h : isEscaped c with
    | true =>
      refine .escape ?_ ih
      rintro rfl
      cases h
    | false =>
      obtain ⟨hquote, hbackslash⟩ := ne_of_isEscaped_eq_false h
      exact .plain hquote hbackslash ih

theorem decodeOnce_escape (cs : List Char) : decodeOnce (escape cs) = cs := by
  induction cs with
  | nil => rfl
  | cons c cs ih =>
    rw [escape_cons]
    cases h : isEscaped c with
    | true =>
      have hpair : decodeOnce ('\\' :: c :: escape cs) = c :: decodeOnce (escape cs) := by
        rw [decodeOnce, if_pos h]
      exact hpair.trans (congrArg (c :: ·) ih)
    | false =>
      have hplain : decodeOnce (c :: escape cs) = c :: decodeOnce (escape cs) :=
        decodeOnce_cons (ne_of_isEscaped_eq_false h).2
      exact hplain.trans (congrArg (c :: ·) ih)

theorem inside_of_quotes (body : List Char) : inside ('"' :: (body ++ ['"'])) = body := by
  rw [inside, List.tail_cons, List.dropLast_concat]

theorem toList_quoted (s : String) : (quoted s).toList = '"' :: (escape s.toList ++ ['"']) :=
  String.toList_ofList

theorem spells_quoted (s : String) : Terminal.Spells .string (quoted s).toList := by
  rw [toList_quoted]
  exact ⟨_, rfl, stringBody_escape _⟩

theorem stringValue_of_spells {text : String} (h : Terminal.Spells .string text.toList) :
    stringValue text = String.ofList (decodeOnce (inside text.toList)) := by
  obtain ⟨body, htext, hbody⟩ := h
  rw [stringValue, htext, inside_of_quotes, unescape_unescape hbody]

theorem stringValue_quoted (s : String) : stringValue (quoted s) = s := by
  rw [stringValue_of_spells (spells_quoted s), toList_quoted, inside_of_quotes, decodeOnce_escape,
    String.ofList_toList]

end Quoting

/-- The value of a string is found by one pass over its inside. Every text is the value of a string,
which is read as one token wherever a string is allowed: the text with its quotes and backslashes
escaped. -/
theorem strings_decode_in_one_pass :
    (∀ text : String, Terminal.Spells .string text.toList →
      stringValue text = String.ofList (decodeOnce (inside text.toList))) ∧
    ∀ s : String,
      Terminal.Spells .string (quoted s).toList ∧
      (∀ (allowed : TerminalSet) (rest : List Char), allowed.contains .string = true →
        readTerminal allowed ((quoted s).toList ++ rest) =
          some (.string, (quoted s).toList, rest)) ∧
      stringValue (quoted s) = s := by
  refine ⟨fun text htext => stringValue_of_spells htext, fun s => ?_⟩
  have hspells := spells_quoted s
  refine ⟨hspells, fun allowed rest hallowed => ?_, stringValue_quoted s⟩
  exact readTerminal_of_string hallowed hspells

/-- Three backslashes in front of a quote, and a pair that is no escape. -/
theorem strings_decode_in_one_pass_of_backslashes :
    stringValue "\"\\\\\\\"\\n\"" = "\\\"\\n" ∧
    readTerminal anyTerminal "\"\\\\\\\"\" + 1".toList =
      some (.string, "\"\\\\\\\"\"".toList, " + 1".toList) ∧
    stringValue "\"\\\\\\\"\"" = "\\\"" := by
  obtain ⟨hvalue, hquoted⟩ := strings_decode_in_one_pass
  have hspells : Terminal.Spells .string "\"\\\\\\\"\\n\"".toList :=
    ⟨"\\\\\\\"\\n".toList, rfl,
      .escape (by decide) (.escape (by decide) (.escape (by decide) .nil))⟩
  obtain ⟨-, hread, hback⟩ := hquoted "\\\""
  exact ⟨hvalue _ hspells, hread anyTerminal " + 1".toList (by decide), hback⟩

end CheckedExceptions.Typing
