import CheckedExceptions.Language.Grammar

/-!
The LALR(1) automaton of a list of productions. Its states are the reachable sets of dotted
productions, found by a breadth-first search from the first production; their lookaheads are the
least sets closed under advancing the dot and under expanding the nonterminal after it. Sets of
terminals are packed into numbers, and a table of such sets into one number, so that the whole
construction is arithmetic on a few integers.
-/
namespace CheckedExceptions.Language

/-- A list of terminal sets in one number: set `i` occupies the bits from `Terminal.count * i` on. -/
abbrev SetTable := Nat

namespace SetTable

def get (table : SetTable) (i : Nat) : TerminalSet :=
  (table >>> (Terminal.count * i)) % (1 <<< Terminal.count)

/-- Adds every member of `s` to set `i`. -/
def add (table : SetTable) (i : Nat) (s : TerminalSet) : SetTable :=
  table ||| (s <<< (Terminal.count * i))

end SetTable

namespace Automaton

/-- A production with a dot: `rest` is what follows the dot, the last symbols of its right-hand
side. The number tells items apart; advancing the dot adds one to it. -/
structure Item where
  number : Nat
  production : Production
  rest : List Symbol
deriving Repr

/-- Item numbers of different productions are this far apart, farther than any production is long. -/
def Item.spacing : Nat := 16

/-- The items with the dot in front, in the order of the productions. -/
def Item.initials (g : List Production) : List Item :=
  g.zipIdx.map fun (p, k) => ⟨k * spacing, p, p.rhs⟩

def Item.advance (i : Item) : Item := ⟨i.number + 1, i.production, i.rest.tail⟩

/-- Repeats a step until it changes nothing, `fuel` times at most. -/
def stabilize (step : Nat → Nat) : Nat → Nat → Nat
  | 0, table => table
  | fuel + 1, table =>
    let next := step table
    if next = table then table else stabilize step fuel next

/-- The terminals that can begin `symbols` followed by a member of `after`, given the terminals
that can begin each nonterminal. No nonterminal inside a right-hand side derives the empty text. -/
def leading (first : SetTable) (after : TerminalSet) : List Symbol → TerminalSet
  | [] => after
  | .terminal t :: _ => .single t
  | .nonTerminal n :: _ => first.get n.ctorIdx

/-- The terminals that can begin each nonterminal. -/
def firstSets (g : List Production) : SetTable :=
  stabilize (fun table => g.foldl (fun (t : SetTable) p => t.add p.lhs.ctorIdx (leading t 0 p.rhs))
    table) NonTerminal.all.length 0

/-- The nonterminals whose productions can start where `n` can. Each of them is followed by the
terminals in its set of `sure`, and, if its set in `passed` is not empty, by whatever follows `n`. -/
structure Expansion where
  sure : SetTable
  passed : SetTable

/-- Closes both tables under productions that begin with a nonterminal. -/
def expansion (g : List Production) (first : SetTable) (n : NonTerminal) : Expansion :=
  let close (seed : TerminalSet) (after : TerminalSet → List Symbol → TerminalSet) : SetTable :=
    stabilize (fun table => g.foldl (fun (t : SetTable) p =>
      match p.rhs with
      | .nonTerminal m :: rest => t.add m.ctorIdx (after (t.get p.lhs.ctorIdx) rest)
      | _ => t) table) NonTerminal.all.length (SetTable.add 0 n.ctorIdx seed)
  let passed := close 1 fun set rest => if rest.isEmpty then set else 0
  let below := close 1 fun set _ => set
  let sure := stabilize (fun table => g.foldl (fun (t : SetTable) p =>
      match p.rhs with
      | .nonTerminal m :: rest =>
        if below.get p.lhs.ctorIdx = 0 then t
        else t.add m.ctorIdx (leading first (t.get p.lhs.ctorIdx) rest)
      | _ => t) table) NonTerminal.all.length 0
  ⟨sure, passed⟩

/-- What is computed once from the productions. -/
structure Context where
  initials : List Item
  first : SetTable
  expansions : List Expansion

def Context.ofProductions (g : List Production) : Context :=
  let first := firstSets g
  ⟨Item.initials g, first, NonTerminal.all.map (expansion g first)⟩

namespace Context

variable (c : Context)

/-- Lookaheads of the nonterminals whose productions can start in a state with the given items: the
set is empty exactly for the nonterminals that cannot. -/
def expand (items : List (Item × TerminalSet)) : SetTable :=
  items.foldl (fun table (i, after) =>
    match i.rest with
    | .nonTerminal n :: rest =>
      match c.expansions[n.ctorIdx]? with
      | some e => table ||| e.sure ||| leading c.first after rest * e.passed
      | none => table
    | _ => table) 0

/-- All items of a state with their lookaheads: the given ones, then a fresh one for each
production that can start there. -/
def complete (items : List (Item × TerminalSet)) : List (Item × TerminalSet) :=
  let table := c.expand items
  if table = 0 then items
  else
    items ++ c.initials.filterMap fun i =>
      match table.get i.production.lhs.ctorIdx with
      | 0 => none
      | after => some (i, after)

end Context

/-- Files an item under the symbol after its dot. -/
def fileUnder (x : Symbol) (i : Item) : List (Symbol × List Item) → List (Symbol × List Item)
  | [] => [(x, [i])]
  | (y, is) :: groups =>
    if x.code = y.code then (y, is ++ [i]) :: groups else (y, is) :: fileUnder x i groups

/-- The items of a state by the symbol after their dot, in the order of the state. -/
def groups (items : List Item) : List (Symbol × List Item) :=
  items.foldl (fun gs i =>
    match i.rest with
    | [] => gs
    | x :: _ => fileUnder x i gs) []

/-- A state before its lookaheads are known: the items it is entered with, and for each symbol that
can be read there the items it moves and the state it leads to. -/
structure Row where
  kernel : List Item
  moves : List (Symbol × List Item × Nat)

/-- The numbers of the items in one number. -/
def key (kernel : List Item) : Nat := kernel.foldl (fun n i => n * 4096 + i.number) 0

/-- A search tree that leads from the keys of kernels to the numbers of their states. -/
inductive Index
  | empty
  | node (left : Index) (key number : Nat) (right : Index)

namespace Index

def find? (k : Nat) : Index → Option Nat
  | empty => none
  | node left key number right =>
    if k = key then some number else if k < key then left.find? k else right.find? k

/-- Adds a key that is not there yet. -/
def insert (k n : Nat) : Index → Index
  | empty => node empty k n empty
  | node left key number right =>
    if k < key then node (left.insert k n) key number right
    else node left key number (right.insert k n)

end Index

/-- The states found so far: the kernels that wait to be explored, and all of them by their keys. -/
structure Found where
  waiting : List (List Item)
  index : Index
  count : Nat

/-- The number of the state with a given kernel, which is a new one if it has not been seen. -/
def Found.stateOf (f : Found) (kernel : List Item) : Nat × Found :=
  let k := key kernel
  match f.index.find? k with
  | some number => (number, f)
  | none => (f.count, ⟨f.waiting ++ [kernel], f.index.insert k f.count, f.count + 1⟩)

def moves (f : Found) : List (Symbol × List Item) → Found × List (Symbol × List Item × Nat)
  | [] => (f, [])
  | (x, items) :: groups =>
    let (target, f) := f.stateOf (items.map Item.advance)
    let (f, rest) := moves f groups
    (f, (x, items, target) :: rest)

/-- Breadth-first search: the rows of the kernels that wait, the first ones of `waiting`. -/
def explore (c : Context) : Nat → Found → List Row
  | 0, _ => []
  | _ + 1, ⟨[], _, _⟩ => []
  | fuel + 1, ⟨kernel :: waiting, index, count⟩ =>
    -- Any nonempty set serves here: only which items there are matters.
    let items := (c.complete (kernel.map fun k => (k, 1))).map (·.1)
    let (found, row) := moves ⟨waiting, index, count⟩ (groups items)
    ⟨kernel, row⟩ :: explore c fuel found

/-- More states than any text of the grammar can reach. -/
def stateBound : Nat := 1000

def rows (c : Context) : List Row :=
  explore c stateBound ((⟨[], .empty, 0⟩ : Found).stateOf (c.initials.take 1)).2

/-- The position in the lookahead table of the first kernel item of each state. -/
def bases (rows : List Row) : List Nat :=
  (rows.foldl (fun (bs, n) r => (n :: bs, n + r.kernel.length)) (([] : List Nat), 0)).1.reverse

def kernelItems (row : Row) (base : Nat) (table : SetTable) : List (Item × TerminalSet) :=
  row.kernel.zipIdx.map fun (i, k) => (i, table.get (base + k))

/-- The lookaheads of the item with a given number. -/
def lookaheadOf (number : Nat) : List (Item × TerminalSet) → TerminalSet
  | [] => 0
  | (i, after) :: items => if i.number = number then after else lookaheadOf number items

/-- Hands the lookaheads of one state on to the states it leads to. -/
def spread (c : Context) (bases : List Nat) (row : Row) (base : Nat) (table : SetTable) :
    SetTable :=
  let kernel := kernelItems row base table
  let fresh := c.expand kernel
  row.moves.foldl (fun table (_, moved, target) =>
    match bases[target]? with
    | none => table
    | some slot =>
      moved.zipIdx.foldl (fun (table : SetTable) (i, k) =>
        table.add (slot + k)
          (if i.number % Item.spacing = 0 ∧ i.number ≠ 0 then fresh.get i.production.lhs.ctorIdx
          else lookaheadOf i.number kernel)) table) table

/-- The lookaheads of all kernel items; the first state is entered at the start of a text. -/
def lookaheads (c : Context) (rows : List Row) : SetTable :=
  let bases := bases rows
  let paired := rows.zip bases
  stabilize (fun table => paired.foldl (fun t (r, b) => spread c bases r b t) table)
    stateBound (SetTable.add 0 0 (.single .endOfText))

end Automaton

/-- What the automaton does on a terminal. -/
inductive Action
  | shift (target : Nat)
  | reduce (p : Production)
  | accept
deriving DecidableEq, Repr

/-- A state: its items with their lookaheads, and what follows from them. -/
structure State where
  items : List (Automaton.Item × TerminalSet)
  actions : List (Terminal × Action)
  gotos : List (NonTerminal × Nat)
deriving Repr

namespace State

def action? (s : State) (t : Terminal) : Option Action := s.actions.lookup t

def goto? (s : State) (n : NonTerminal) : Option Nat := s.gotos.lookup n

/-- The terminals on which the state has an action. -/
def expected (s : State) : TerminalSet :=
  s.actions.foldl (fun set (t, _) => set ||| .single t) 0

end State

namespace Automaton

def allTerminals : List Terminal :=
  [.name, .string, .number, .operator, .endOfText] ++ Mark.all.map .mark ++ Keyword.all.map .word

/-- Reading the end of the text completes the first production, and so accepts. -/
def shiftAction (t : Terminal) (target : Nat) : Action :=
  if t = .endOfText then .accept else .shift target

/-- The actions of a state: a terminal that can be read is shifted; a completed production is
reduced on its lookaheads. -/
def actions (items : List (Item × TerminalSet)) (moves : List (Symbol × List Item × Nat)) :
    List (Terminal × Action) :=
  let shifts := moves.filterMap fun (x, _, target) =>
    match x with
    | .terminal t => some (t, shiftAction t target)
    | .nonTerminal _ => none
  let reductions := items.flatMap fun (i, after) =>
    match i.rest with
    | [] => (allTerminals.filter after.contains).map fun t => (t, .reduce i.production)
    | _ => []
  shifts ++ reductions

def gotos (moves : List (Symbol × List Item × Nat)) : List (NonTerminal × Nat) :=
  moves.filterMap fun (x, _, target) =>
    match x with
    | .nonTerminal n => some (n, target)
    | .terminal _ => none

/-- The states of the automaton of a list of productions; the first one is initial. -/
def build (g : List Production) : List State :=
  let c := Context.ofProductions g
  let rows := rows c
  let table := lookaheads c rows
  (rows.zip (bases rows)).map fun (row, base) =>
    let items := c.complete (kernelItems row base table)
    ⟨items, actions items row.moves, gotos row.moves⟩

end Automaton

/-- The states of the automaton of the source language. -/
def states : Array State := (Automaton.build Grammar.productions).toArray

end CheckedExceptions.Language
