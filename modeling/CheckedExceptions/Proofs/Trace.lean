import CheckedExceptions.Proofs.Declared

/-!
What a tree does, told without a stack. The content of a propagation point is a trace of throws and
catches in the order of the text, without what belongs to the propagation points inside it. A throw
escapes if its type is checked, is not declared, and is not caught by any later catch of the same
trace. The findings of a tree follow from these traces alone.
-/
namespace CheckedExceptions

/-- Something that matters to a propagation point. -/
inductive Event
  | throws (x : Candidate)
  | catches (types : List ExceptionType)
deriving DecidableEq, Repr

namespace Event

def caught : Event → List ExceptionType
  | throws _ => []
  | catches types => types

/-- All types caught in a trace. -/
def caughtIn (trace : List Event) : List ExceptionType := trace.flatMap caught

/-- The throws that leave a propagation point with the given declaration. -/
def escaping (c : Classification) (declared : List ExceptionType) : List Event → List Candidate
  | [] => []
  | catches _ :: later => escaping c declared later
  | throws x :: later =>
    if c.isUnchecked x.type || c.handles declared x.type || c.handles (caughtIn later) x.type then
      escaping c declared later
    else x :: escaping c declared later

/-- What is found when a propagation point with the given declaration is left. -/
def unhandled (c : Classification) (declared : List ExceptionType) (trace : List Event) :
    List Finding :=
  (escaping c declared trace).map fun x => .unhandled x.span x.type

end Event

namespace Declared

/-- The finding about a declaration that cannot be read. -/
def faults {α : Type} : Except Finding α → List Finding
  | .error finding => [finding]
  | .ok _ => []

variable (overridden : Symbol → List Symbol)

/-- The types that a symbol declares itself, and those that its overridden symbols declare. -/
def declarationOf (symbol : Symbol) (span : Span) (owner : String) :
    Except Finding (List ExceptionType × List ExceptionType) :=
  match declaration [symbol] span owner with
  | .error finding => .error finding
  | .ok own =>
    match declaration (overridden symbol) span owner with
    | .error finding => .error finding
    | .ok inherited => .ok (own, inherited)

/-- The types that an invocation may throw. -/
def thrownBy (symbol : Symbol) (span : Span) : List ExceptionType :=
  match declarationOf overridden symbol span symbol.qualifiedName with
  | .error _ => []
  | .ok (own, inherited) => own ++ inherited

/-- What is wrong with the declarations that an invocation refers to. -/
def invocationFindings (symbol : Symbol) (span : Span) : List Finding :=
  faults (declarationOf overridden symbol span symbol.qualifiedName)

/-- The types that a definition declares. -/
def definitionTypes (symbol : Symbol) (span : Span) : List ExceptionType :=
  match declarationOf overridden symbol span symbol.name with
  | .error _ => []
  | .ok (own, inherited) => own ++ inherited

/-- What is wrong with the declaration of a definition: a bad marker, or types that the overridden
definitions do not declare. -/
def definitionFindings (isSubtype : ExceptionType → ExceptionType → Bool) (symbol : Symbol)
    (span : Span) : List Finding :=
  match declarationOf overridden symbol span symbol.name with
  | .error finding => [finding]
  | .ok (own, inherited) =>
    overrideFindings isSubtype span symbol.name own inherited !(overridden symbol).isEmpty

/-- The types that the primary constructor of a class declares. -/
def constructorTypes (symbol ctor : Symbol) (span : Span) : List ExceptionType :=
  match declaration [ctor] span symbol.name with
  | .error _ => []
  | .ok types => types

def constructorFindings (symbol ctor : Symbol) (span : Span) : List Finding :=
  faults (declaration [ctor] span symbol.name)

end Declared

/-- The types of the unguarded clauses with a type test. -/
def Clause.types (clauses : List Clause) : List ExceptionType := clauses.filterMap Clause.caught?

mutual

/-- What a node contributes to the trace of the propagation point around it. -/
def Node.trace (bases : Symbol → List Symbol) : Node → List Event
  | .absent | .foreign _ | .unit _ _ | .classDef _ _ _ _ | .funcDef _ _ _ _ => []
  | .tryCatch body clauses finalizer _ =>
    body.trace bases ++
      .catches (Clause.types clauses) :: (Clause.traceAll bases clauses ++ finalizer.trace bases)
  | .clause c => c.trace bases
  | .raise value type span =>
    value.trace bases ++ ((value.thrownType? type).toList.map fun t => .throws ⟨span, t⟩)
  | .invoke _ symbol operands _ span =>
    Node.traceAll bases operands ++
      (Declared.thrownBy bases symbol span).map fun t => .throws ⟨span, t⟩
  | .plain _ parts _ => Node.traceAll bases parts

def Node.traceAll (bases : Symbol → List Symbol) : List Node → List Event
  | [] => []
  | n :: ns => n.trace bases ++ Node.traceAll bases ns

def Clause.trace (bases : Symbol → List Symbol) : Clause → List Event
  | .mk pattern guard body _ => pattern.trace bases ++ (guard.trace bases ++ body.trace bases)

def Clause.traceAll (bases : Symbol → List Symbol) : List Clause → List Event
  | [] => []
  | c :: cs => c.trace bases ++ Clause.traceAll bases cs

end

mutual

/-- What is found inside a node, apart from the throws that leave the propagation point around it.
A bad declaration of a class comes before what its body contains, that of a definition after. -/
def Node.findings (r : Rules) : Node → List Finding
  | .absent | .foreign _ => []
  | .unit body _ =>
    Node.findingsAll r body ++ Event.unhandled r.classification [] (Node.traceAll r.overridden body)
  | .classDef symbol ctor body span =>
    if symbol.isExempt then []
    else if ctor.isExempt then Declared.constructorFindings symbol ctor span
    else
      Declared.constructorFindings symbol ctor span ++ (Node.findingsAll r body ++
        Event.unhandled r.classification (Declared.constructorTypes symbol ctor span)
          (Node.traceAll r.overridden body))
  | .funcDef symbol _ body span =>
    if symbol.isExempt then []
    else
      Node.findingsAll r body ++
        (Declared.definitionFindings r.overridden r.classification.isSubtype symbol span ++
          Event.unhandled r.classification (Declared.definitionTypes r.overridden symbol span)
            (Node.traceAll r.overridden body))
  | .tryCatch body clauses finalizer _ =>
    body.findings r ++ (Clause.findingsAll r clauses ++ finalizer.findings r)
  | .clause c => c.findings r
  | .raise value _ _ => value.findings r
  | .invoke _ symbol operands _ span =>
    Node.findingsAll r operands ++ Declared.invocationFindings r.overridden symbol span
  | .plain _ parts _ => Node.findingsAll r parts

def Node.findingsAll (r : Rules) : List Node → List Finding
  | [] => []
  | n :: ns => n.findings r ++ Node.findingsAll r ns

def Clause.findings (r : Rules) : Clause → List Finding
  | .mk pattern guard body _ => pattern.findings r ++ (guard.findings r ++ body.findings r)

def Clause.findingsAll (r : Rules) : List Clause → List Finding
  | [] => []
  | c :: cs => c.findings r ++ Clause.findingsAll r cs

end

/-- All findings of a tree, whose root is a propagation point that declares nothing. -/
def Node.allFindings (r : Rules) (tree : Node) : List Finding :=
  tree.findings r ++ Event.unhandled r.classification [] (tree.trace r.overridden)

end CheckedExceptions
