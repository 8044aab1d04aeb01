import CheckedExceptions.Language.Token
import CheckedExceptions.Text.Rendering

/-!
Why a text is not a program: a token stands where none of its kind can, or a character begins no
token at all. Either has a position and a message of one line.
-/
namespace CheckedExceptions.Language

inductive SyntaxError
  | unexpectedToken (t : Token)
  | unexpectedCharacter (c : Char) (p : Position)
deriving DecidableEq, Repr

namespace SyntaxError

def position : SyntaxError → Position
  | unexpectedToken t => t.extent.start
  | unexpectedCharacter _ p => p

/-- The character is shown as it is, and the message ends before it if it ends a line. -/
def message : SyntaxError → String
  | unexpectedToken t =>
    let p := t.extent.start
    s!"Unexpected token Token('{t.terminal.label}', {Text.quoted t.text}) at line {p.line}, " ++
      s!"column {p.column}."
  | unexpectedCharacter c p =>
    Text.firstLine (s!"No terminal matches '{c}' in the current parser context, at line " ++
      s!"{p.line} col {p.column}")

end SyntaxError

end CheckedExceptions.Language
