import CheckedExceptions.Language.Ast
import CheckedExceptions.Overrides
import CheckedExceptions.Typing.Error
import CheckedExceptions.Typing.Literal

/-!
What a program declares. Exception types are registered in rounds, so that a type may extend one
that is declared later. Functions, classes and their members get symbols; they are laid out in one
list, in the order of the text, and no two of them may have the same qualified name.
-/
namespace CheckedExceptions.Typing

open CheckedExceptions.Language

/-- Registering keeps what was registered before a failure. -/
abbrev Registering := EStateM Error Hierarchy

/-- A type that extends nothing else extends the type of exceptions. -/
def parentName (d : ExceptionDecl) : String := d.parent.getD Hierarchy.exceptionName

/-- Registers in order the types whose parent is registered by then, and returns the others. -/
def registerReady (file : Option String) : List ExceptionDecl → Registering (List ExceptionDecl)
  | [] => return []
  | d :: ds => do
    let h ← get
    let parent := parentName d
    if h.contains parent then
      match h.register d.name (some parent) with
      | .ok h =>
        set h
        registerReady file ds
      | .error e => throw (.program (.registration e) (.ofExtent file d.extent))
    else return d :: (← registerReady file ds)

/-- Registers types round after round. A round that registers nothing leaves only types whose parent
is unknown, and the first of them is at fault. Each other round has fewer types to register. -/
def registerRounds (file : Option String) : Nat → List ExceptionDecl → Registering Unit
  | 0, _ => return
  | rounds + 1, pending => do
    match ← registerReady file pending with
    | [] => return
    | d :: waiting =>
      if (d :: waiting).length = pending.length then
        throw (.program (.registration (.unknownParent d.name (parentName d)))
          (.ofExtent file d.extent))
      registerRounds file rounds (d :: waiting)

def registerExceptions (file : Option String) (decls : List ExceptionDecl) : Registering Unit :=
  registerRounds file decls.length decls

/-- A callable: its symbol, the type its declaration gives as its result, and its parameters. -/
structure Callable where
  symbol : Symbol
  result : Option String
  params : List String

structure ClassEntry where
  name : String
  symbol : Symbol
  ctor : Symbol
  ctorParams : List String
  parents : List String
  methods : List (String × Callable)
  otherCtors : List Callable
  /-- The symbols of methods and constructors, each under the member's index in the class. -/
  memberSymbols : List (Nat × Symbol)
  extent : Extent

namespace ClassEntry

variable (c : ClassEntry)

def method? (name : String) : Option Callable := c.methods.lookup name

def otherCtor? (symbol : Symbol) : Option Callable :=
  c.otherCtors.find? (·.symbol.identity = symbol.identity)

def memberSymbol (index : Nat) : Except Error Symbol :=
  found (.member index) (c.memberSymbols.lookup index)

/-- The method that stands at an index, found by the name of its symbol. -/
def methodAt (index : Nat) : Except Error Callable := do
  let symbol ← c.memberSymbol index
  found (.method symbol.name) (c.method? symbol.name)

/-- The constructor that stands at an index, found by its symbol. -/
def otherCtorAt (index : Nat) : Except Error Callable := do
  let symbol ← c.memberSymbol index
  found (.constructor symbol) (c.otherCtor? symbol)

end ClassEntry

/-- Where names of a program are looked up while its symbols are made. -/
structure Site where
  file : Option String
  hierarchy : Hierarchy

namespace Site

variable (s : Site)

def span (x : Extent) : Span := .ofExtent s.file x

def fail {α : Type} (cause : Cause) (x : Extent) : Except Error α := .error (.program cause (s.span x))

/-- A name that is no exception type stays as it is. -/
def typeRef (name : String) : TypeRef :=
  match s.hierarchy.lookup name with
  | some t => .resolved t
  | none => .raw name

def markerArg : MarkerArgDecl → MarkerArg
  | .classLiteral name => .classLiteral (s.typeRef name)
  | .string text => .text (stringValue text)
  | .number digits => .number (digitsValue digits)
  | .name name => .text name

def marker (m : MarkerDecl) : Marker :=
  ⟨⟨m.name, m.typeArgs.map s.typeRef, m.args.map s.markerArg⟩, s.span m.extent⟩

/-- A function of the program, or a method if it has an owner. -/
def function (owner : Option String) (f : FuncDecl) : Callable :=
  let symbol := match owner with
    | none => ⟨f.name, .function, f.markers.map s.marker⟩
    | some q => ⟨s!"{q}.{f.name}", .method, f.markers.map s.marker⟩
  ⟨symbol, f.result, f.params.map (·.name)⟩

def ctorSuffix : String := "<init>"

/-- The constructors of a class after its primary one are numbered from one. -/
def otherCtor (owner : String) (index : Nat) (c : CtorDecl) : Callable :=
  ⟨⟨s!"{owner}.{ctorSuffix}#{index}", .constructor, c.markers.map s.marker⟩, none,
    c.params.map (·.name)⟩

end Site

def qualifiedName (outer : Option String) (name : String) : String :=
  match outer with
  | none => name
  | some q => s!"{q}.{name}"

def methodsOf (s : Site) (owner : String) (members : List Member) : List (String × Callable) :=
  members.filterMap fun
    | .func f => some (f.name, s.function (some owner) f)
    | _ => none

/-- The constructors among the members, the first of them with number `index + 1`. -/
def otherCtorsOf (s : Site) (owner : String) : Nat → List Member → List Callable
  | _, [] => []
  | index, .ctor c :: ms => s.otherCtor owner (index + 1) c :: otherCtorsOf s owner (index + 1) ms
  | index, _ :: ms => otherCtorsOf s owner index ms

/-- The symbols of members from the one at `index` on, after `ctors` constructors. -/
def memberSymbolsOf (s : Site) (owner : String) : Nat → Nat → List Member → List (Nat × Symbol)
  | _, _, [] => []
  | index, ctors, .func f :: ms =>
    (index, (s.function (some owner) f).symbol) :: memberSymbolsOf s owner (index + 1) ctors ms
  | index, ctors, .ctor c :: ms =>
    (index, (s.otherCtor owner (ctors + 1) c).symbol) ::
      memberSymbolsOf s owner (index + 1) (ctors + 1) ms
  | index, ctors, _ :: ms => memberSymbolsOf s owner (index + 1) ctors ms

def classEntry (s : Site) (outer : Option String) : ClassDecl → ClassEntry
  | .mk markers name params ctorMarkers parents members extent =>
    let q := qualifiedName outer name
    { name
      symbol := ⟨q, .classType, markers.map s.marker⟩
      ctor := ⟨s!"{q}.{Site.ctorSuffix}", .constructor, ctorMarkers.map s.marker⟩
      ctorParams := params.map (·.name)
      parents
      methods := methodsOf s q members
      otherCtors := otherCtorsOf s q 0 members
      memberSymbols := memberSymbolsOf s q 0 0 members
      extent }

/-- One declaration of a program, with the numbers of its markers. -/
inductive Declaration
  | function (info : Callable) (numbers : List String) (extent : Extent)
  | classType (info : ClassEntry) (numbers : List String)
  | member (info : Callable) (numbers : List String) (extent : Extent)

mutual

/-- A class, then its members in order, with the members of the classes among them. -/
def classDeclarations (s : Site) (outer : Option String) : ClassDecl → List Declaration
  | .mk markers name params ctorMarkers parents members extent =>
    .classType (classEntry s outer (.mk markers name params ctorMarkers parents members extent))
        (MarkerDecl.numbersAll (markers ++ ctorMarkers)) ::
      memberDeclarations s (qualifiedName outer name) 0 members

/-- The declarations of members after `index` constructors. -/
def memberDeclarations (s : Site) (owner : String) : Nat → List Member → List Declaration
  | _, [] => []
  | index, .func f :: ms =>
    .member (s.function (some owner) f) (MarkerDecl.numbersAll f.markers) f.extent ::
      memberDeclarations s owner index ms
  | index, .ctor c :: ms =>
    .member (s.otherCtor owner (index + 1) c) (MarkerDecl.numbersAll c.markers) c.extent ::
      memberDeclarations s owner (index + 1) ms
  | index, .classDecl c :: ms =>
    classDeclarations s (some owner) c ++ memberDeclarations s owner index ms
  | index, .stmt _ :: ms => memberDeclarations s owner index ms

end

def itemDeclarations (s : Site) : Item → List Declaration
  | .func f => [.function (s.function none f) (MarkerDecl.numbersAll f.markers) f.extent]
  | .classDecl c => classDeclarations s none c
  | .exception _ | .stmt _ => []

/-- The names that a program declares, each list in the order of declaration. -/
structure Declarations where
  functions : List Callable := []
  classes : List ClassEntry := []
  symbols : List Symbol := []

namespace Declarations

def function? (d : Declarations) (name : String) : Option Callable :=
  d.functions.find? (·.symbol.qualifiedName = name)

def class? (d : Declarations) (name : String) : Option ClassEntry := d.classes.find? (·.name = name)

def declare (s : Site) (symbol : Symbol) (x : Extent) (d : Declarations) :
    Except Error Declarations :=
  if d.symbols.any (·.qualifiedName = symbol.qualifiedName) then
    s.fail (.duplicate symbol.qualifiedName) x
  else .ok { d with symbols := d.symbols ++ [symbol] }

/-- Adds one declaration. A class must differ from all classes and functions before it by its
simple name, and then, once the markers are read, every symbol from all symbols before it by its
qualified name. -/
def add (s : Site) (d : Declarations) : Declaration → Except Error Declarations
  | .function info numbers x => do
    readNumbers numbers
    let d ← d.declare s info.symbol x
    return { d with functions := d.functions ++ [info] }
  | .classType info numbers => do
    if (d.class? info.name).isSome || (d.function? info.name).isSome then
      s.fail (.duplicate info.name) info.extent
    readNumbers numbers
    let d ← d.declare s info.symbol info.extent
    let d ← d.declare s info.ctor info.extent
    return { d with classes := d.classes ++ [info] }
  | .member info numbers x => do
    readNumbers numbers
    d.declare s info.symbol x

def addAll (s : Site) : Declarations → List Declaration → Except Error Declarations
  | d, [] => .ok d
  | d, x :: xs => do
    let d ← d.add s x
    d.addAll s xs

def ofProgram (s : Site) (p : Program) : Except Error Declarations :=
  addAll s {} (p.items.flatMap (itemDeclarations s))

end Declarations

end CheckedExceptions.Typing
