import CheckedExceptions.Declared
import CheckedExceptions.Node
import CheckedExceptions.Overrides
import CheckedExceptions.Scopes

/-!
The check itself: one walk over a tree that keeps a stack of open propagation points and collects
findings in the order in which they are met. The walk can fail on a tree that is not well formed;
what it had found and opened until then stays in its state.
-/
namespace CheckedExceptions

/-- What the walk consults. -/
structure Rules where
  classification : Classification
  overridden : Symbol → List Symbol

inductive FlowError
  | scope (e : ScopeError)
  | foreignNode (typeName : String)
  | untypedRaise (span : Span)
deriving DecidableEq, Repr

def FlowError.message : FlowError → String
  | scope e => e.message
  | foreignNode typeName => s!"expected a tree node, got {typeName}"
  | untypedRaise span => s!"raise at {span.render} has no static exception type"

/-- Steps of the walk that a reader of its log can follow. -/
inductive FlowEvent
  | skippedClass (symbol : Symbol)
  | skippedConstructor (symbol : Symbol)
  | skippedDefinition (symbol : Symbol)
  | leftFrame (depth declared unhandled : Nat)
  | catchPoint (decidable undecidable removed : Nat)
deriving DecidableEq, Repr

structure FlowState where
  scopes : Scopes := {}
  findings : List Finding := []
  readings : Readings := {}
  events : List FlowEvent := []

abbrev Flow := EStateM FlowError FlowState

namespace Flow

def report (findings : List Finding) : Flow Unit :=
  modify fun s => { s with findings := s.findings ++ findings }

def log (event : FlowEvent) : Flow Unit :=
  modify fun s => { s with events := s.events ++ [event] }

def enter : Flow Unit := modify fun s => { s with scopes := s.scopes.enter }

/-- Performs an operation on the stack of frames. -/
def onScopes {α : Type} (operation : Scopes → Except ScopeError (α × Scopes)) : Flow α := do
  match operation (← get).scopes with
  | .ok (result, scopes) => modifyGet fun s => (result, { s with scopes })
  | .error e => throw (.scope e)

def add (r : Rules) (candidates : List Candidate) : Flow Unit :=
  discard (onScopes (Scopes.add r.classification candidates))

/-- Closes the innermost frame and reports what escapes from it. -/
def leave (r : Rules) (declared : List ExceptionType) : Flow Unit := do
  let escaping ← onScopes (Scopes.leave r.classification declared)
  log (.leftFrame (← get).scopes.depth declared.length escaping.length)
  report (escaping.map fun x => .unhandled x.span x.type)

def declaredBy (symbols : List Symbol) (span : Span) (owner : String) :
    Flow (Except Finding (List ExceptionType)) :=
  modifyGet fun s =>
    let (result, readings) := s.readings.declaredBy symbols span owner
    (result, { s with readings })

/-- The types declared by a constructor; an invalid declaration declares nothing. -/
def declaredByConstructor (ctor : Symbol) (span : Span) (owner : String) :
    Flow (List ExceptionType) := do
  match ← declaredBy [ctor] span owner with
  | .ok types => return types
  | .error finding =>
    report [finding]
    return []

/-- The types declared for a symbol by itself and by what it overrides, in this order. The first
invalid declaration is reported instead. -/
def declaredWithOverridden (r : Rules) (symbol : Symbol) (span : Span) (owner : String) :
    Flow (Option (List ExceptionType × List ExceptionType)) := do
  match ← declaredBy [symbol] span owner with
  | .error finding =>
    report [finding]
    return none
  | .ok own =>
    match ← declaredBy (r.overridden symbol) span owner with
    | .error finding =>
      report [finding]
      return none
    | .ok inherited => return some (own, inherited)

/-- The types declared by a definition. Types beyond the overridden declarations are reported and
still count as declared. -/
def declaredByDefinition (r : Rules) (symbol : Symbol) (span : Span) :
    Flow (List ExceptionType) := do
  match ← declaredWithOverridden r symbol span symbol.name with
  | none => return []
  | some (own, inherited) =>
    report (overrideFindings r.classification.isSubtype span symbol.name own inherited
      !(r.overridden symbol).isEmpty)
    return own ++ inherited

/-- A throw site may throw whatever its target and all that the target overrides declare. -/
def throwDeclared (r : Rules) (symbol : Symbol) (span : Span) : Flow Unit := do
  match ← declaredWithOverridden r symbol span symbol.qualifiedName with
  | none => return
  | some (own, inherited) => add r ((own ++ inherited).map (Candidate.mk span))

/-- Removes what the decidable clauses catch from the candidates met so far. -/
def catchPoint (r : Rules) (clauses : List Clause) : Flow Unit := do
  let removed ← onScopes (Scopes.filter r.classification (Clause.caughtTypes clauses))
  let decidable := clauses.countP Clause.isDecidable
  log (.catchPoint decidable (clauses.length - decidable) removed)

mutual

/-- Walks over a node. Patterns, guards, handlers and the finalizer of a `tryCatch` are outside
what its clauses protect. -/
def walk (r : Rules) : Node → Flow Unit
  | .absent => return
  | .foreign typeName => throw (.foreignNode typeName)
  | .unit body _ => do
    enter
    walkAll r body
    leave r []
  | .classDef symbol ctor body span => do
    if symbol.isExempt then
      log (.skippedClass symbol)
    else
      enter
      let declared ← declaredByConstructor ctor span symbol.name
      if ctor.isExempt then log (.skippedConstructor symbol) else walkAll r body
      leave r declared
  | .funcDef symbol _ body span => do
    if symbol.isExempt then
      log (.skippedDefinition symbol)
    else
      enter
      walkAll r body
      let declared ← declaredByDefinition r symbol span
      leave r declared
  | .tryCatch body clauses finalizer _ => do
    walk r body
    catchPoint r clauses
    walkClauses r clauses
    walk r finalizer
  | .clause c => walkClause r c
  | .raise value type span => do
    walk r value
    match value.thrownType? type with
    | none => throw (.untypedRaise span)
    | some t => add r [⟨span, t⟩]
  | .invoke _ symbol operands _ span => do
    walkAll r operands
    throwDeclared r symbol span
  | .plain _ parts _ => walkAll r parts

def walkAll (r : Rules) : List Node → Flow Unit
  | [] => return
  | n :: ns => do
    walk r n
    walkAll r ns

def walkClause (r : Rules) : Clause → Flow Unit
  | .mk pattern guard body _ => do
    walk r pattern
    walk r guard
    walk r body

def walkClauses (r : Rules) : List Clause → Flow Unit
  | [] => return
  | c :: cs => do
    walkClause r c
    walkClauses r cs

end

/-- Walks over a whole tree from a fresh state. Its root is a propagation point that declares
nothing. -/
def run (r : Rules) (tree : Node) : Flow (List Finding) := do
  set ({} : FlowState)
  enter
  walk r tree
  leave r []
  return (← get).findings

end Flow

end CheckedExceptions
