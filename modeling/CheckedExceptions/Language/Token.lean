import CheckedExceptions.Language.Terminal

/-!
Positions in a text, tokens, and the text classes of the terminals. Lines and columns count from
one; only a line feed starts a new line, and a column is a number of characters.
-/
namespace CheckedExceptions.Language

structure Position where
  line : Nat
  column : Nat
deriving DecidableEq, Repr

namespace Position

def first : Position := ⟨1, 1⟩

/-- The position after one character. -/
def next (p : Position) (c : Char) : Position :=
  if c = '\n' then ⟨p.line + 1, 1⟩ else ⟨p.line, p.column + 1⟩

/-- The position after several characters. -/
def after (p : Position) (cs : List Char) : Position := cs.foldl next p

end Position

/-- The part of a text from `start` to just before `stop`. -/
structure Extent where
  start : Position
  stop : Position
deriving DecidableEq, Repr

structure Token where
  terminal : Terminal
  text : String
  extent : Extent
deriving DecidableEq, Repr

/-- Space, tab, form feed, carriage return and line feed. -/
def isLayout (c : Char) : Bool :=
  c = ' ' || c = '\t' || c = '\x0c' || c = '\r' || c = '\n'

def isNameStart (c : Char) : Bool := c.isAlpha || c = '_'

def isNameChar (c : Char) : Bool := c.isAlphanum || c = '_'

/-- The binary operators, each before the operators that begin it. -/
def operators : List String := ["==", "!=", "&&", "||", "<=", ">=", "<", ">", "+", "-", "*"]

end CheckedExceptions.Language
