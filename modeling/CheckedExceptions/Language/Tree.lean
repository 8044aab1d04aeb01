import CheckedExceptions.Language.Grammar
import CheckedExceptions.Language.Token

/-!
Derivations and syntax trees. A derivation records every production and every token; the syntax
tree of a derivation keeps the productions with a label and the tokens that carry text of their own,
each with the part of the text it covers.
-/
namespace CheckedExceptions.Language

inductive Derivation
  | leaf (token : Token)
  | node (production : Production) (children : List Derivation)

namespace Derivation

def symbol : Derivation → Symbol
  | leaf t => .terminal t.terminal
  | node p _ => .nonTerminal p.lhs

mutual

/-- The tokens of a derivation, in the order of the text. -/
def tokens : Derivation → List Token
  | leaf t => [t]
  | node _ children => tokensAll children

def tokensAll : List Derivation → List Token
  | [] => []
  | d :: ds => tokens d ++ tokensAll ds

end

mutual

/-- The first token of a derivation, found without listing the others. -/
def first? : Derivation → Option Token
  | leaf t => some t
  | node _ children => firstOf? children

def firstOf? : List Derivation → Option Token
  | [] => none
  | d :: ds => first? d <|> firstOf? ds

end

mutual

/-- The last token of a derivation. -/
def last? : Derivation → Option Token
  | leaf t => some t
  | node _ children => lastOf? children

def lastOf? : List Derivation → Option Token
  | [] => none
  | d :: ds => lastOf? ds <|> last? d

end

/-- From the first to the last token, if there is one. -/
def extentOf? (ds : List Derivation) : Option Extent :=
  match firstOf? ds, lastOf? ds with
  | some a, some b => some ⟨a.extent.start, b.extent.stop⟩
  | _, _ => none

end Derivation

inductive Tree
  | token (t : Token)
  | node (label : Label) (extent : Option Extent) (children : List Tree)

namespace Derivation

mutual

/-- The trees that a derivation contributes to the node around it. -/
def trees : Derivation → List Tree
  | leaf t => if t.terminal.isOpen then [.token t] else []
  | node p children =>
    match p.label with
    | some label => [.node label (extentOf? children) (treesAll children)]
    | none => treesAll children

def treesAll : List Derivation → List Tree
  | [] => []
  | d :: ds => trees d ++ treesAll ds

end

/-- The syntax tree of the derivation of a whole text, whose production has a label. -/
def tree (d : Derivation) : Tree :=
  match d.trees with
  | t :: _ => t
  | [] => .node .start none []

end Derivation

end CheckedExceptions.Language
