import CheckedExceptions.Flow

/-!
Log lines. Steps of a walk are for those who follow a check closely, its results for everyone who
asks for a log at all.
-/
namespace CheckedExceptions.CommandLine

inductive Level
  | info | debug
deriving DecidableEq, Repr

/-- The verbosity from which on a level is shown. -/
def Level.threshold : Level → Nat
  | info => 1
  | debug => 2

/-- The name of a level, five characters wide. -/
def Level.label : Level → String
  | info => "INFO "
  | debug => "DEBUG"

structure LogLine where
  level : Level
  source : String
  message : String
deriving DecidableEq, Repr

namespace LogLine

def render (l : LogLine) : String := s!"[{l.level.label}] {l.source}: {l.message}"

def isShown (verbosity : Nat) (l : LogLine) : Bool := l.level.threshold ≤ verbosity

def ofEvent : FlowEvent → LogLine
  | .skippedClass s => walk s!"skipping suppressed class {s.qualifiedName}"
  | .skippedConstructor s => walk s!"skipping body of {s.qualifiedName} (suppressed constructor)"
  | .skippedDefinition s => walk s!"skipping suppressed definition {s.qualifiedName}"
  | .leftFrame depth declared unhandled =>
    ⟨.debug, "throwflow.flow.scope",
      s!"leave frame depth={depth} declared={declared} unhandled={unhandled}"⟩
  | .catchPoint decidable undecidable removed =>
    walk (s!"catch point: {decidable} decidable, {undecidable} undecidable clause(s), " ++
      s!"{removed} candidate(s) removed")
where
  walk (message : String) : LogLine := ⟨.debug, "throwflow.flow.traversal", message⟩

end LogLine

end CheckedExceptions.CommandLine
