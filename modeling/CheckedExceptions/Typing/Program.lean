import CheckedExceptions.Check
import CheckedExceptions.Language.Parser
import CheckedExceptions.Typing.Resolution

/-!
From source text to typed program. The hierarchy is shared between sources: the exception types of
a program are registered in it, also those registered before a failure.
-/
namespace CheckedExceptions

/-- A program whose names are resolved. -/
structure TypedProgram where
  unit : Node
  hierarchy : Hierarchy
  declarations : Typing.Declarations
  overrides : Overrides

inductive LoadError
  | syntactic (e : Language.SyntaxError)
  | typing (e : Typing.Error)
deriving DecidableEq, Repr

namespace Typing

open CheckedExceptions.Language

def exceptionDecls (p : Program) : List ExceptionDecl :=
  p.items.filterMap fun
    | .exception e => some e
    | _ => none

/-- The typed program of a program whose exception types are all registered. -/
def resolveProgram (s : Site) (p : Program) : Except Error TypedProgram := do
  let declarations ← Declarations.ofProgram s p
  let overrides ← declarations.overrides s
  match Context.resolveItems ⟨s, declarations⟩ p.items .initial with
  | .error e _ => .error e
  | .ok body _ =>
    let span := match p.extent with
      | some x => s.span x
      | none => { file := s.file }
    return ⟨.unit body span, s.hierarchy, declarations, overrides⟩

/-- Registers the exception types of a program, then resolves the rest. -/
def typeProgram (file : Option String) (p : Program) : Registering TypedProgram := do
  registerExceptions file (exceptionDecls p)
  match resolveProgram ⟨file, ← get⟩ p with
  | .ok program => return program
  | .error e => throw e

end Typing

/-- The program of a text. -/
def Language.parseProgram (source : String) : Except Language.SyntaxError Language.Program := do
  let tree ← Language.parse source
  match Language.Program.ofTree? tree with
  | some p => .ok p
  | none => .error (.unexpectedCharacter ' ' .first)

/-- Reads a source against a hierarchy, and returns the hierarchy as it is afterwards. -/
def load (h : Hierarchy) (file : Option String) (source : String) :
    Except LoadError TypedProgram × Hierarchy :=
  match Language.parseProgram source with
  | .error e => (.error (.syntactic e), h)
  | .ok p =>
    match Typing.typeProgram file p h with
    | .ok program h => (.ok program, h)
    | .error e h => (.error (.typing e), h)

def TypedProgram.check (program : TypedProgram) (p : Policy) : Except CheckError Verdict :=
  CheckedExceptions.check program.hierarchy p program.overrides.overridden program.unit

end CheckedExceptions
