import CheckedExceptions.Language.SyntaxError

/-!
Reading one token. What can be read depends on the set of terminals that the surrounding text
allows: a word is reserved only where its keyword is allowed, and where no name is allowed a keyword
is read even from the front of a longer word. Layout and comments may stand before any token.
-/
namespace CheckedExceptions.Language

/-- Skips layout and comments; a comment runs from two slashes to the end of its line. -/
def skipLayout (inComment : Bool) (p : Position) : List Char → Position × List Char
  | [] => (p, [])
  | c :: cs =>
    if inComment then skipLayout (c ≠ '\n') (p.next c) cs
    else if isLayout c then skipLayout false (p.next c) cs
    else if c = '/' ∧ cs.head? = some '/' then skipLayout true (p.next c) cs
    else (p, c :: cs)

/-- A text split in two, or nothing if no text of the wanted class stands in front. -/
abbrev Split := Option (List Char × List Char)

def splitName : List Char → Split
  | c :: cs =>
    if isNameStart c then some (c :: cs.takeWhile isNameChar, cs.dropWhile isNameChar) else none
  | [] => none

def splitNumber : List Char → Split
  | c :: cs =>
    if c.isDigit then some (c :: cs.takeWhile Char.isDigit, cs.dropWhile Char.isDigit) else none
  | [] => none

/-- The rest of a string after its opening quote. A backslash takes the next character with it,
which must not be a line feed. -/
def splitStringBody : List Char → Split
  | [] => none
  | '"' :: cs => some (['"'], cs)
  | '\\' :: c :: cs =>
    if c = '\n' then none
    else (splitStringBody cs).map fun (body, rest) => ('\\' :: c :: body, rest)
  | c :: cs =>
    if c = '\\' then none
    else (splitStringBody cs).map fun (body, rest) => (c :: body, rest)

def splitString : List Char → Split
  | '"' :: cs => (splitStringBody cs).map fun (body, rest) => ('"' :: body, rest)
  | _ => none

/-- Splits off a fixed text. -/
def splitText : List Char → List Char → Split
  | [], cs => some ([], cs)
  | _ :: _, [] => none
  | x :: xs, c :: cs =>
    if x = c then (splitText xs cs).map fun (front, rest) => (x :: front, rest) else none

def splitOperator (cs : List Char) : Split := operators.findSome? fun o => splitText o.toList cs

/-- The terminal that the front of a text is read as, the characters read and those left. -/
abbrev Reading := Option (Terminal × List Char × List Char)

def Split.reading (t : Terminal) (s : Split) : Reading := s.map fun (front, rest) => (t, front, rest)

def Keyword.ofText? (cs : List Char) : Option Keyword := Keyword.all.find? fun k => k.text.toList = cs

/-- A name becomes a keyword if it spells one that is allowed. -/
def readName (allowed : TerminalSet) (cs : List Char) : Reading :=
  (splitName cs).map fun (front, rest) =>
    match (Keyword.ofText? front).filter fun k => allowed.contains (.word k) with
    | some k => (.word k, front, rest)
    | none => (.name, front, rest)

/-- The first allowed keyword that the text begins with. -/
def readKeyword (allowed : TerminalSet) (cs : List Char) : Reading :=
  (Keyword.all.filter fun k => allowed.contains (.word k)).findSome? fun k =>
    Split.reading (.word k) (splitText k.text.toList cs)

def readWord (allowed : TerminalSet) (cs : List Char) : Reading :=
  if allowed.contains .name then readName allowed cs else readKeyword allowed cs

def readOpen (allowed : TerminalSet) (t : Terminal) (s : Split) : Reading :=
  if allowed.contains t then Split.reading t s else none

def readMark (allowed : TerminalSet) (cs : List Char) : Reading :=
  (Mark.all.filter fun m => allowed.contains (.mark m)).findSome? fun m =>
    Split.reading (.mark m) (splitText [m.char] cs)

/-- Reads one allowed terminal from the front of a text. Operators come before marks, so that `==`
is not read as two equals signs. -/
def readTerminal (allowed : TerminalSet) (cs : List Char) : Reading :=
  [ readWord allowed cs,
    readOpen allowed .string (splitString cs),
    readOpen allowed .number (splitNumber cs),
    readOpen allowed .operator (splitOperator cs),
    readMark allowed cs ].findSome? id

/-- Every terminal. -/
def anyTerminal : TerminalSet := (1 <<< Terminal.count) - 1

/-- What is left of a text: the characters, where they begin, and where the last token began. -/
structure Remaining where
  chars : List Char
  position : Position
  lastToken : Position
deriving Repr

def Remaining.ofText (s : String) : Remaining := ⟨s.toList, .first, .first⟩

/-- The next token among the allowed ones. At the end of the text it is an empty one, placed where
the last token began. Where nothing allowed can be read, a token of another kind is unexpected, and
if there is none the character is. -/
def Remaining.next (r : Remaining) (allowed : TerminalSet) : Except SyntaxError (Token × Remaining) :=
  let (p, cs) := skipLayout false r.position r.chars
  match cs with
  | [] => .ok (⟨.endOfText, "", ⟨r.lastToken, r.lastToken⟩⟩, ⟨[], p, r.lastToken⟩)
  | c :: _ =>
    match readTerminal allowed cs, readTerminal anyTerminal cs with
    | some (t, front, rest), _ =>
      .ok (⟨t, String.ofList front, ⟨p, p.after front⟩⟩, ⟨rest, p.after front, p⟩)
    | none, some (t, front, _) =>
      .error (.unexpectedToken ⟨t, String.ofList front, ⟨p, p.after front⟩⟩)
    | none, none => .error (.unexpectedCharacter c p)

end CheckedExceptions.Language
