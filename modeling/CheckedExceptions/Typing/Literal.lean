import CheckedExceptions.Typing.Error

/-!
The values of literals. Inside the quotes of a string, a backslash before a quote or before another
backslash is dropped; before any other character it stays. A number is refused if it has too many
digits.
-/
namespace CheckedExceptions.Typing

/-- Drops each backslash that stands before the character `c`, from left to right. -/
def unescape (c : Char) : List Char → List Char
  | '\\' :: x :: xs => if x = c then c :: unescape c xs else '\\' :: unescape c (x :: xs)
  | x :: xs => x :: unescape c xs
  | [] => []

/-- The text between the first and the last character. -/
def inside (cs : List Char) : List Char := cs.tail.dropLast

/-- The value of a string with its quotes. Quotes are unescaped before backslashes. -/
def stringValue (text : String) : String :=
  String.ofList (unescape '\\' (unescape '"' (inside text.toList)))

/-- The value of a row of decimal digits. -/
def digitsValue (digits : String) : Nat :=
  digits.toList.foldl (fun n c => 10 * n + (c.toNat - '0'.toNat)) 0

/-- The most digits that a number may have, leading zeros included. -/
def maxDigits : Nat := 4300

def numberValue (digits : String) : Except Error Nat :=
  if digits.length ≤ maxDigits then .ok (digitsValue digits)
  else .error (.tooManyDigits digits.length)

/-- Reads numbers one after the other, up to the first that has too many digits. -/
def readNumbers : List String → Except Error Unit
  | [] => .ok ()
  | digits :: rest => do
    let _ ← numberValue digits
    readNumbers rest

end CheckedExceptions.Typing
