import CheckedExceptions.Language.Automaton
import CheckedExceptions.Language.Lexer
import CheckedExceptions.Language.Tree

/-!
The shift-reduce machine. It holds a stack of derivations, each with the state entered by it, and
reads one token at a time; which tokens can be read depends on the state on top of the stack after
the last shift. A text is a program if the machine accepts it.
-/
namespace CheckedExceptions.Language

structure Frame where
  state : Nat
  tree : Derivation

structure Machine where
  stack : List Frame
  lookahead : Option Token
  remaining : Remaining

namespace Machine

def ofText (s : String) : Machine := ⟨[], none, .ofText s⟩

def stateOf (states : Array State) (stack : List Frame) : Option State :=
  match stack with
  | [] => states[0]?
  | f :: _ => states[f.state]?

inductive Step
  | next (m : Machine)
  | accepted (d : Derivation)
  | failed (e : SyntaxError)

/-- Replaces the right-hand side of `p` on top of the stack by its left-hand side. -/
def reduce (states : Array State) (stack : List Frame) (p : Production) : Option (List Frame) := do
  let read := (stack.take p.rhs.length).reverse.map (·.tree)
  let below := stack.drop p.rhs.length
  guard (read.map (·.symbol) = p.rhs)
  let target ← (← stateOf states below).goto? p.lhs
  return ⟨target, .node p read⟩ :: below

/-- Reads a token if none waits; otherwise shifts the one that waits, or reduces. -/
def step (states : Array State) (m : Machine) : Step :=
  match m.lookahead with
  | none =>
    let allowed := ((stateOf states m.stack).map State.expected).getD 0
    match m.remaining.next allowed with
    | .ok (t, remaining) => .next ⟨m.stack, some t, remaining⟩
    | .error e => .failed e
  | some t =>
    match (stateOf states m.stack).bind (·.action? t.terminal) with
    | some (.shift target) => .next ⟨⟨target, .leaf t⟩ :: m.stack, none, m.remaining⟩
    | some (.reduce p) =>
      match reduce states m.stack p with
      | some stack => .next ⟨stack, some t, m.remaining⟩
      | none => .failed (.unexpectedToken t)
    | some .accept =>
      match m.stack with
      | [f] =>
        if f.tree.symbol = .nonTerminal .start then .accepted f.tree
        else .failed (.unexpectedToken t)
      | _ => .failed (.unexpectedToken t)
    | none => .failed (.unexpectedToken t)

/-- Runs the machine for at most `fuel` steps. -/
def run (states : Array State) : Nat → Machine → Except SyntaxError Derivation
  | 0, m => .error (.unexpectedCharacter ' ' m.remaining.position)
  | fuel + 1, m =>
    match step states m with
    | .next m => run states fuel m
    | .accepted d => .ok d
    | .failed e => .error e

/-- Enough steps for a text of `n` characters: a token is read and shifted once, no production but
the first is empty, and a chain of productions of length one is shorter than the list of
nonterminals. -/
def stepBound (n : Nat) : Nat := (n + 2) * (2 * NonTerminal.all.length + 2)

end Machine

/-- The derivation of a text. -/
def derive (source : String) : Except SyntaxError Derivation :=
  Machine.run states (Machine.stepBound source.length) (.ofText source)

/-- The syntax tree of a text. -/
def parse (source : String) : Except SyntaxError Tree := (derive source).map Derivation.tree

end CheckedExceptions.Language
