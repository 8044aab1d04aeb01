import CheckedExceptions.Text.Characters

/-!
Forms in which texts are shown. Messages quote a text between single quotes, or between double ones
if the text has a single quote and no double one; the quote, the backslash and characters without a
printed form are escaped. JSON values are written on one line, with a blank after every comma and
colon, fields in the given order, and every character outside the printed ASCII ones escaped.
-/
namespace CheckedExceptions.Text

def hexDigit (n : Nat) : Char := "0123456789abcdef".toList.getD n '0'

/-- The last `width` digits of a number in base sixteen. -/
def hex : Nat → Nat → List Char
  | 0, _ => []
  | width + 1, n => hex width (n / 16) ++ [hexDigit (n % 16)]

/-- Escapes by number use two, four or eight digits. -/
def numericEscape (n : Nat) : List Char :=
  if n < 0x100 then '\\' :: 'x' :: hex 2 n
  else if n < 0x10000 then '\\' :: 'u' :: hex 4 n
  else '\\' :: 'U' :: hex 8 n

def quotedChar (quote c : Char) : List Char :=
  if c = quote ∨ c = '\\' then ['\\', c]
  else if c = '\n' then ['\\', 'n']
  else if c = '\r' then ['\\', 'r']
  else if c = '\t' then ['\\', 't']
  else if isPrinted c then [c]
  else numericEscape c.toNat

def quoteFor (cs : List Char) : Char := if '\'' ∈ cs ∧ '"' ∉ cs then '"' else '\''

def quoted (s : String) : String :=
  let quote := quoteFor s.toList
  String.ofList (quote :: s.toList.flatMap (quotedChar quote) ++ [quote])

inductive Json
  | null
  | number (n : Int)
  | string (s : String)
  | array (elements : List Json)
  | object (fields : List (String × Json))

namespace Json

/-- A code unit of sixteen bits as an escape. -/
def unitEscape (n : Nat) : List Char := '\\' :: 'u' :: hex 4 n

/-- Characters beyond the sixteen-bit ones are two units. -/
def escapeCode (n : Nat) : List Char :=
  if n < 0x10000 then unitEscape n
  else
    let rest := n - 0x10000
    unitEscape (0xd800 + rest / 0x400) ++ unitEscape (0xdc00 + rest % 0x400)

def escapeChar (c : Char) : List Char :=
  if c = '"' ∨ c = '\\' then ['\\', c]
  else if c = '\n' then ['\\', 'n']
  else if c = '\r' then ['\\', 'r']
  else if c = '\t' then ['\\', 't']
  else if c.toNat = 0x08 then ['\\', 'b']
  else if c.toNat = 0x0c then ['\\', 'f']
  else if 0x20 ≤ c.toNat ∧ c.toNat ≤ 0x7e then [c]
  else escapeCode c.toNat

def renderString (s : String) : String :=
  String.ofList ('"' :: s.toList.flatMap escapeChar ++ ['"'])

mutual

def render : Json → String
  | null => "null"
  | number n => toString n
  | string s => renderString s
  | array elements => "[" ++ ", ".intercalate (renderAll elements) ++ "]"
  | object fields => "\x7b" ++ ", ".intercalate (renderFields fields) ++ "\x7d"

def renderAll : List Json → List String
  | [] => []
  | x :: xs => render x :: renderAll xs

def renderFields : List (String × Json) → List String
  | [] => []
  | (key, x) :: xs => (renderString key ++ ": " ++ render x) :: renderFields xs

end

/-- An optional value, absent ones being null. -/
def optional {α : Type} (f : α → Json) : Option α → Json
  | some a => f a
  | none => null

end Json

end CheckedExceptions.Text
