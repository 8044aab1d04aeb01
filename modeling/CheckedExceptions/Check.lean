import CheckedExceptions.Flow
import CheckedExceptions.Policy

/-!
Checking a tree against a hierarchy under a policy.
-/
namespace CheckedExceptions

/-- A check cannot start without the types that the policies refer to, and fails on a tree that is
not well formed. -/
inductive CheckError
  | unknownType (e : UnknownType)
  | flow (e : FlowError)
deriving DecidableEq, Repr

/-- The findings of a check, and what its walk did. -/
structure Verdict where
  findings : List Finding
  events : List FlowEvent
deriving DecidableEq, Repr

def Rules.ofPolicy (h : Hierarchy) (roots : Roots) (p : Policy)
    (overridden : Symbol → List Symbol) : Rules :=
  ⟨⟨p.isUnchecked h roots, h.isSubtype⟩, overridden⟩

def check (h : Hierarchy) (p : Policy) (overridden : Symbol → List Symbol) (tree : Node) :
    Except CheckError Verdict :=
  match h.roots with
  | .error e => .error (.unknownType e)
  | .ok roots =>
    match Flow.run (.ofPolicy h roots p overridden) tree {} with
    | .ok findings s => .ok ⟨findings, s.events⟩
    | .error e _ => .error (.flow e)

def diagnostics (findings : List Finding) : List Diagnostic := findings.map Finding.toDiagnostic

/-- Adds the diagnostics of findings to those collected so far. -/
def collect (collected : List Diagnostic) (findings : List Finding) : List Diagnostic :=
  collected ++ diagnostics findings

/-- Findings that nobody collects are a failure. -/
structure CheckFailure where
  diagnostics : List Diagnostic
deriving DecidableEq, Repr

def CheckFailure.message (f : CheckFailure) : String :=
  s!"{f.diagnostics.length} exception check error(s):\n" ++
    "\n".intercalate (f.diagnostics.map Diagnostic.render)

/-- Accepts a tree without findings. -/
def requireNone (findings : List Finding) : Except CheckFailure Unit :=
  if findings.isEmpty then .ok () else .error ⟨diagnostics findings⟩

end CheckedExceptions
