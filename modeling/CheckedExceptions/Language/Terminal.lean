/-!
The terminals of the source language: four open classes (names, strings, numbers, binary
operators), the reserved words, the punctuation marks, and the end of the text. Every terminal has
a code below `Terminal.count`, so that a set of terminals fits in the bits of one number.
-/
namespace CheckedExceptions.Language

inductive Keyword
  | exceptionKw | extendsKw | classOfKw | defKw | thisKw | classKw | withKw | letKw | raiseKw
  | returnKw | ifKw | elseKw | whileKw | tryKw | finallyKw | catchKw | newKw | trueKw | falseKw
deriving DecidableEq, Repr

namespace Keyword

/-- Longer words stand before the words that begin them. -/
def all : List Keyword :=
  [exceptionKw, extendsKw, classOfKw, finallyKw, returnKw, classKw, raiseKw, whileKw, catchKw,
    falseKw, thisKw, withKw, elseKw, trueKw, defKw, letKw, tryKw, newKw, ifKw]

def text : Keyword → String
  | exceptionKw => "exception"
  | extendsKw => "extends"
  | classOfKw => "classOf"
  | defKw => "def"
  | thisKw => "this"
  | classKw => "class"
  | withKw => "with"
  | letKw => "let"
  | raiseKw => "raise"
  | returnKw => "return"
  | ifKw => "if"
  | elseKw => "else"
  | whileKw => "while"
  | tryKw => "try"
  | finallyKw => "finally"
  | catchKw => "catch"
  | newKw => "new"
  | trueKw => "true"
  | falseKw => "false"

/-- The name under which a syntax error shows the word. -/
def label : Keyword → String
  | exceptionKw => "EXCEPTION"
  | extendsKw => "EXTENDS"
  | classOfKw => "CLASSOF"
  | defKw => "DEF"
  | thisKw => "THIS"
  | classKw => "CLASS"
  | withKw => "WITH"
  | letKw => "LET"
  | raiseKw => "RAISE"
  | returnKw => "RETURN"
  | ifKw => "IF"
  | elseKw => "ELSE"
  | whileKw => "WHILE"
  | tryKw => "TRY"
  | finallyKw => "FINALLY"
  | catchKw => "CATCH"
  | newKw => "NEW"
  | trueKw => "TRUE"
  | falseKw => "FALSE"

theorem mem_all (k : Keyword) : k ∈ all := by cases k <;> decide

end Keyword

inductive Mark
  | atSign | comma | leftBracket | rightBracket | leftParen | rightParen | colon | leftBrace
  | rightBrace | equal | dot
deriving DecidableEq, Repr

namespace Mark

def all : List Mark :=
  [atSign, comma, leftBracket, rightBracket, leftParen, rightParen, colon, leftBrace, rightBrace,
    equal, dot]

def char : Mark → Char
  | atSign => '@'
  | comma => ','
  | leftBracket => '['
  | rightBracket => ']'
  | leftParen => '('
  | rightParen => ')'
  | colon => ':'
  | leftBrace => '\x7b'
  | rightBrace => '\x7d'
  | equal => '='
  | dot => '.'

def label : Mark → String
  | atSign => "AT"
  | comma => "COMMA"
  | leftBracket => "LSQB"
  | rightBracket => "RSQB"
  | leftParen => "LPAR"
  | rightParen => "RPAR"
  | colon => "COLON"
  | leftBrace => "LBRACE"
  | rightBrace => "RBRACE"
  | equal => "EQUAL"
  | dot => "DOT"

theorem mem_all (m : Mark) : m ∈ all := by cases m <;> decide

end Mark

inductive Terminal
  | name | string | number | operator
  | endOfText
  | mark (m : Mark)
  | word (k : Keyword)
deriving DecidableEq, Repr

namespace Terminal

def label : Terminal → String
  | name => "NAME"
  | string => "STRING"
  | number => "NUMBER"
  | operator => "BINOP"
  | endOfText => "$END"
  | mark m => m.label
  | word k => k.label

def code : Terminal → Nat
  | name => 0
  | string => 1
  | number => 2
  | operator => 3
  | endOfText => 4
  | mark m => 5 + m.ctorIdx
  | word k => 16 + k.ctorIdx

/-- Every code is below this number. -/
def count : Nat := 35

/-- Names, strings, numbers and operators carry text of their own; the others are punctuation. -/
def isOpen : Terminal → Bool
  | name | string | number | operator => true
  | _ => false

end Terminal

/-- A set of terminals, one bit each. -/
abbrev TerminalSet := Nat

namespace TerminalSet

def single (t : Terminal) : TerminalSet := 1 <<< t.code

def contains (s : TerminalSet) (t : Terminal) : Bool := s.testBit t.code

end TerminalSet

end CheckedExceptions.Language
