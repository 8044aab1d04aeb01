import CheckedExceptions.Node
import CheckedExceptions.Proofs.Syntax.Unplaced
import CheckedExceptions.Proofs.Typing.Declarations
import CheckedExceptions.Typing.Environment
import Mathlib.Data.List.Basic

/-!
Programs and trees without places. Every part of a program, of its declarations and of its tree
carries the part of the text that it comes from; what is left without these places is what the
program says. Looking something up by its name and leaving out places can be done in either order.
-/
namespace CheckedExceptions

namespace Language

mutual

def Expr.unplaced : Expr → Expr
  | .ref name _ => .ref name .nowhere
  | .this _ => .this .nowhere
  | .string text _ => .string text .nowhere
  | .number digits _ => .number digits .nowhere
  | .truth value _ => .truth value .nowhere
  | .call name args _ => .call name (Expr.unplacedAll args) .nowhere
  | .new name args _ => .new name (Expr.unplacedAll args) .nowhere
  | .thisCall args _ => .thisCall (Expr.unplacedAll args) .nowhere
  | .methodCall receiver name args _ =>
    .methodCall receiver.unplaced name (Expr.unplacedAll args) .nowhere
  | .binary operator left right _ => .binary operator left.unplaced right.unplaced .nowhere

def Expr.unplacedAll : List Expr → List Expr
  | [] => []
  | e :: es => e.unplaced :: Expr.unplacedAll es

end

mutual

def Pattern.unplaced : Pattern → Pattern
  | .typed binder type _ => .typed binder type .nowhere
  | .bind binder _ => .bind binder .nowhere
  | .extractor name args _ => .extractor name (Pattern.unplacedAll args) .nowhere

def Pattern.unplacedAll : List Pattern → List Pattern
  | [] => []
  | p :: ps => p.unplaced :: Pattern.unplacedAll ps

end

mutual

def Stmt.unplaced : Stmt → Stmt
  | .letBinding name type value _ => .letBinding name type value.unplaced .nowhere
  | .assign name value _ => .assign name value.unplaced .nowhere
  | .raise value _ => .raise value.unplaced .nowhere
  | .returning value _ => .returning value.unplaced .nowhere
  | .ifElse condition thenBlock none _ =>
    .ifElse condition.unplaced thenBlock.unplaced none .nowhere
  | .ifElse condition thenBlock (some elseBranch) _ =>
    .ifElse condition.unplaced thenBlock.unplaced (some elseBranch.unplaced) .nowhere
  | .whileLoop condition body _ => .whileLoop condition.unplaced body.unplaced .nowhere
  | .tryCatch body handlers none _ =>
    .tryCatch body.unplaced (Handler.unplacedAll handlers) none .nowhere
  | .tryCatch body handlers (some finalizer) _ =>
    .tryCatch body.unplaced (Handler.unplacedAll handlers) (some finalizer.unplaced) .nowhere
  | .block b => .block b.unplaced
  | .expr e => .expr e.unplaced

def Stmt.unplacedAll : List Stmt → List Stmt
  | [] => []
  | s :: ss => s.unplaced :: Stmt.unplacedAll ss

def Block.unplaced : Block → Block
  | .mk stmts _ => .mk (Stmt.unplacedAll stmts) .nowhere

def Handler.unplaced : Handler → Handler
  | .mk pattern guard body _ =>
    .mk pattern.unplaced (guard.map Expr.unplaced) body.unplaced .nowhere

def Handler.unplacedAll : List Handler → List Handler
  | [] => []
  | h :: hs => h.unplaced :: Handler.unplacedAll hs

end

theorem Stmt.unplaced_ifElse (condition : Expr) (thenBlock : Block)
    (elseBranch : Option Stmt) (x : Extent) :
    (Stmt.ifElse condition thenBlock elseBranch x).unplaced =
      .ifElse condition.unplaced thenBlock.unplaced (elseBranch.map Stmt.unplaced) .nowhere := by
  cases elseBranch <;> rw [Stmt.unplaced] <;> rfl

theorem Stmt.unplaced_tryCatch (body : Block) (handlers : List Handler)
    (finalizer : Option Block) (x : Extent) :
    (Stmt.tryCatch body handlers finalizer x).unplaced =
      .tryCatch body.unplaced (Handler.unplacedAll handlers) (finalizer.map Block.unplaced)
        .nowhere := by
  cases finalizer <;> rw [Stmt.unplaced] <;> rfl

def MarkerDecl.unplaced (m : MarkerDecl) : MarkerDecl := { m with extent := .nowhere }

def FuncDecl.unplaced (f : FuncDecl) : FuncDecl :=
  ⟨f.markers.map MarkerDecl.unplaced, f.name, f.params, f.result, f.body.unplaced, .nowhere,
    f.undotted⟩

theorem FuncDecl.markers_unplaced (f : FuncDecl) :
    f.unplaced.markers = f.markers.map MarkerDecl.unplaced := rfl

theorem FuncDecl.eq_of_unplaced {f f' : FuncDecl} (h : f.unplaced = f'.unplaced) :
    f.name = f'.name ∧ f.params = f'.params ∧ f.body.unplaced = f'.body.unplaced := by
  have hname := congrArg FuncDecl.name h
  have hparams := congrArg FuncDecl.params h
  have hbody := congrArg FuncDecl.body h
  exact ⟨hname, hparams, hbody⟩

def CtorDecl.unplaced (c : CtorDecl) : CtorDecl :=
  ⟨c.markers.map MarkerDecl.unplaced, c.params, c.body.unplaced, .nowhere⟩

theorem CtorDecl.eq_of_unplaced {c c' : CtorDecl} (h : c.unplaced = c'.unplaced) :
    c.params = c'.params ∧ c.body.unplaced = c'.body.unplaced := by
  have hparams := congrArg CtorDecl.params h
  have hbody := congrArg CtorDecl.body h
  exact ⟨hparams, hbody⟩

theorem CtorDecl.markers_unplaced (c : CtorDecl) :
    c.unplaced.markers = c.markers.map MarkerDecl.unplaced := rfl

mutual

def ClassDecl.unplaced : ClassDecl → ClassDecl
  | .mk markers name params ctorMarkers parents members _ =>
    .mk (markers.map MarkerDecl.unplaced) name params (ctorMarkers.map MarkerDecl.unplaced) parents
      (Member.unplacedAll members) .nowhere

def Member.unplaced : Member → Member
  | .func f => .func f.unplaced
  | .ctor c => .ctor c.unplaced
  | .classDecl c => .classDecl c.unplaced
  | .stmt s => .stmt s.unplaced

def Member.unplacedAll : List Member → List Member
  | [] => []
  | m :: ms => m.unplaced :: Member.unplacedAll ms

end

def ExceptionDecl.unplaced (d : ExceptionDecl) : ExceptionDecl := { d with extent := .nowhere }

def Item.unplaced : Item → Item
  | .exception d => .exception d.unplaced
  | .func f => .func f.unplaced
  | .classDecl c => .classDecl c.unplaced
  | .stmt s => .stmt s.unplaced

end Language

def Marker.unplaced (m : Marker) : Marker := ⟨m.form, {}⟩

def Symbol.unplaced (s : Symbol) : Symbol := { s with markers := s.markers.map Marker.unplaced }

theorem Symbol.identity_unplaced (s : Symbol) : s.unplaced.identity = s.identity := by
  simp [identity, unplaced, Marker.unplaced]

mutual

def Node.unplaced : Node → Node
  | .absent => .absent
  | .foreign typeName => .foreign typeName
  | .unit body _ => .unit (Node.unplacedAll body) {}
  | .classDef symbol ctor body _ =>
    .classDef symbol.unplaced ctor.unplaced (Node.unplacedAll body) {}
  | .funcDef symbol params body _ => .funcDef symbol.unplaced params (Node.unplacedAll body) {}
  | .tryCatch body clauses finalizer _ =>
    .tryCatch body.unplaced (Clause.unplacedAll clauses) finalizer.unplaced {}
  | .clause c => .clause c.unplaced
  | .raise value type _ => .raise value.unplaced type {}
  | .invoke how symbol operands type _ =>
    .invoke how symbol.unplaced (Node.unplacedAll operands) type {}
  | .plain form parts _ => .plain form (Node.unplacedAll parts) {}

def Node.unplacedAll : List Node → List Node
  | [] => []
  | n :: ns => n.unplaced :: Node.unplacedAll ns

def Clause.unplaced : Clause → Clause
  | .mk pattern guard body _ => .mk pattern.unplaced guard.unplaced body.unplaced {}

def Clause.unplacedAll : List Clause → List Clause
  | [] => []
  | c :: cs => c.unplaced :: Clause.unplacedAll cs

end

theorem Node.unplacedAll_eq (ns : List Node) : unplacedAll ns = ns.map unplaced := by
  induction ns with
  | nil => rfl
  | cons n ns ih => rw [unplacedAll, ih, List.map_cons]

namespace Typing

open CheckedExceptions.Language

def Callable.unplaced (f : Callable) : Callable := { f with symbol := f.symbol.unplaced }

def ClassEntry.unplaced (c : ClassEntry) : ClassEntry :=
  { c with
    symbol := c.symbol.unplaced
    ctor := c.ctor.unplaced
    methods := c.methods.map fun m => (m.1, m.2.unplaced)
    otherCtors := c.otherCtors.map Callable.unplaced
    memberSymbols := c.memberSymbols.map fun m => (m.1, m.2.unplaced)
    extent := .nowhere }

def Declaration.unplaced : Declaration → Declaration
  | .function info numbers _ => .function info.unplaced numbers .nowhere
  | .classType info numbers => .classType info.unplaced numbers
  | .member info numbers _ => .member info.unplaced numbers .nowhere

def ValueType.unplaced : ValueType → ValueType
  | .exception t => .exception t
  | .classType c => .classType c.unplaced

def Environment.unplaced (e : Environment) : Environment :=
  ⟨e.scopes.map fun scope => scope.map fun b => (b.1, b.2.map ValueType.unplaced)⟩

theorem ClassEntry.eq_of_unplaced {c c' : ClassEntry} (h : c.unplaced = c'.unplaced) :
    c.name = c'.name ∧ c.parents = c'.parents := by
  have hname := congrArg ClassEntry.name h
  have hparents := congrArg ClassEntry.parents h
  exact ⟨hname, hparents⟩

theorem ClassEntry.symbols_of_unplaced {c c' : ClassEntry} (h : c.unplaced = c'.unplaced) :
    c.symbol.unplaced = c'.symbol.unplaced ∧ c.ctor.unplaced = c'.ctor.unplaced := by
  have hsymbol := congrArg ClassEntry.symbol h
  have hctor := congrArg ClassEntry.ctor h
  exact ⟨hsymbol, hctor⟩

theorem Callable.eq_of_unplaced {f f' : Callable} (h : f.unplaced = f'.unplaced) :
    f.symbol.unplaced = f'.symbol.unplaced ∧ f.result = f'.result := by
  have hsymbol := congrArg Callable.symbol h
  have hresult := congrArg Callable.result h
  exact ⟨hsymbol, hresult⟩

theorem Callable.params_eq_of_unplaced {f f' : Callable} (h : f.unplaced = f'.unplaced) :
    f.params = f'.params := by
  have hparams := congrArg Callable.params h
  exact hparams

/-- Looking up a key in a list of pairs, and a view of what the keys stand for. -/
theorem lookup_map_snd {κ β γ : Type} [BEq κ] (view : β → γ) (l : List (κ × β)) (k : κ) :
    (l.map fun b => (b.1, view b.2)).lookup k = (l.lookup k).map view := by
  induction l with
  | nil => rfl
  | cons b l ih =>
    obtain ⟨key, value⟩ := b
    rw [List.map_cons, List.lookup_cons, List.lookup_cons, ih]
    cases k == key <;> rfl

theorem ClassEntry.method?_unplaced (c : ClassEntry) (name : String) :
    c.unplaced.method? name = (c.method? name).map Callable.unplaced :=
  lookup_map_snd Callable.unplaced c.methods name

theorem ClassEntry.otherCtor?_unplaced (c : ClassEntry) (symbol : CheckedExceptions.Symbol) :
    c.unplaced.otherCtor? symbol.unplaced = (c.otherCtor? symbol).map Callable.unplaced := by
  have hkey : (fun m : Callable => decide (m.symbol.identity = symbol.unplaced.identity)) ∘
      Callable.unplaced = fun m => decide (m.symbol.identity = symbol.identity) := by
    funext m
    simp only [Function.comp_apply, Callable.unplaced, Symbol.identity_unplaced]
  rw [ClassEntry.otherCtor?, ClassEntry.unplaced, List.find?_map, hkey]
  rfl

namespace ValueType

theorem exception?_unplaced (type : Option ValueType) :
    exception? (type.map unplaced) = exception? type := by
  cases type with
  | none => rfl
  | some v => cases v <;> rfl

theorem class?_unplaced (type : Option ValueType) :
    class? (type.map unplaced) = (class? type).map ClassEntry.unplaced := by
  cases type with
  | none => rfl
  | some v => cases v <;> rfl

end ValueType

namespace Environment

theorem unplaced_push (e : Environment) : e.push.unplaced = e.unplaced.push := rfl

theorem unplaced_bind (e : Environment) (name : String) (type : Option ValueType) :
    (e.bind name type).unplaced = e.unplaced.bind name (type.map ValueType.unplaced) := by
  obtain ⟨scopes⟩ := e
  cases scopes <;> rfl

theorem lookup_unplaced (e : Environment) (name : String) :
    e.unplaced.lookup name = (e.lookup name).map (Option.map ValueType.unplaced) := by
  obtain ⟨scopes⟩ := e
  induction scopes with
  | nil => rfl
  | cons scope outer ih =>
    have hscope := lookup_map_snd (Option.map ValueType.unplaced) scope name
    simp only [lookup, unplaced, List.map_cons, List.findSome?_cons] at ih ⊢
    rw [hscope]
    cases hfound : scope.lookup name with
    | none => exact ih
    | some type => rfl

end Environment

section Sites

variable {s s' : Site}

/-- The same names are registered for both. -/
def Site.Agrees (s s' : Site) : Prop :=
  ∀ name, s'.hierarchy.contains name = s.hierarchy.contains name

theorem Site.Agrees.lookup (h : s.Agrees s') (name : String) :
    s'.hierarchy.lookup name = s.hierarchy.lookup name := by
  rw [Hierarchy.lookup, Hierarchy.lookup, h name]

variable (h : s.Agrees s')

include h

theorem Site.Agrees.marker (m : MarkerDecl) :
    (s'.marker m.unplaced).unplaced = (s.marker m).unplaced := by
  have htype : s'.typeRef = s.typeRef := by
    funext name
    rw [Site.typeRef, Site.typeRef, h.lookup]
  have harg : s'.markerArg = s.markerArg := by
    funext arg
    cases arg with
    | classLiteral name => simp only [Site.markerArg, htype]
    | _ => rfl
  simp only [Site.marker, Marker.unplaced, MarkerDecl.unplaced, htype, harg]

/-- A symbol with the markers of a declaration. -/
theorem Site.Agrees.symbol (q : String) (kind : SymbolKind) (markers : List MarkerDecl) :
    Symbol.unplaced ⟨q, kind, (markers.map MarkerDecl.unplaced).map s'.marker⟩ =
      Symbol.unplaced ⟨q, kind, markers.map s.marker⟩ := by
  simp only [Symbol.unplaced, List.map_map, Function.comp_def, h.marker]

theorem Site.Agrees.function (owner : Option String) (f : FuncDecl) :
    (s'.function owner f.unplaced).unplaced = (s.function owner f).unplaced := by
  cases owner with
  | none => simp only [Site.function, Callable.unplaced, FuncDecl.unplaced, h.symbol]
  | some q => simp only [Site.function, Callable.unplaced, FuncDecl.unplaced, h.symbol]

theorem Site.Agrees.otherCtor (owner : String) (index : Nat) (c : CtorDecl) :
    (s'.otherCtor owner index c.unplaced).unplaced = (s.otherCtor owner index c).unplaced := by
  simp only [Site.otherCtor, Callable.unplaced, CtorDecl.unplaced, h.symbol]

theorem Site.Agrees.methodsOf (owner : String) (members : List Member) :
    (methodsOf s' owner (Member.unplacedAll members)).map (fun m => (m.1, m.2.unplaced)) =
      (methodsOf s owner members).map fun m => (m.1, m.2.unplaced) := by
  induction members with
  | nil => rfl
  | cons member members ih =>
    rw [Member.unplacedAll]
    cases member with
    | func f =>
      change (f.name, (s'.function (some owner) f.unplaced).unplaced) :: _ =
        (f.name, (s.function (some owner) f).unplaced) :: _
      rw [h.function]
      exact congrArg _ ih
    | ctor c => exact ih
    | classDecl c => exact ih
    | stmt _ => exact ih

theorem Site.Agrees.otherCtorsOf (owner : String) (index : Nat) (members : List Member) :
    (otherCtorsOf s' owner index (Member.unplacedAll members)).map Callable.unplaced =
      (otherCtorsOf s owner index members).map Callable.unplaced := by
  induction members generalizing index with
  | nil => rfl
  | cons member members ih =>
    rw [Member.unplacedAll]
    cases member with
    | ctor c =>
      change (s'.otherCtor owner (index + 1) c.unplaced).unplaced :: _ =
        (s.otherCtor owner (index + 1) c).unplaced :: _
      rw [h.otherCtor]
      exact congrArg _ (ih (index + 1))
    | func f => exact ih index
    | classDecl c => exact ih index
    | stmt _ => exact ih index

theorem Site.Agrees.memberSymbolsOf (owner : String) (index ctors : Nat) (members : List Member) :
    (memberSymbolsOf s' owner index ctors (Member.unplacedAll members)).map
        (fun m => (m.1, m.2.unplaced)) =
      (memberSymbolsOf s owner index ctors members).map fun m => (m.1, m.2.unplaced) := by
  induction members generalizing index ctors with
  | nil => rfl
  | cons member members ih =>
    rw [Member.unplacedAll]
    cases member with
    | func f =>
      have hsymbol := congrArg Callable.symbol (h.function (some owner) f)
      exact congrArg₂ List.cons (Prod.ext rfl hsymbol) (ih _ _)
    | ctor c =>
      have hsymbol := congrArg Callable.symbol (h.otherCtor owner (ctors + 1) c)
      exact congrArg₂ List.cons (Prod.ext rfl hsymbol) (ih _ _)
    | classDecl c => exact ih _ _
    | stmt _ => exact ih _ _

theorem Site.Agrees.classEntry (outer : Option String) (c : ClassDecl) :
    (classEntry s' outer c.unplaced).unplaced = (classEntry s outer c).unplaced := by
  obtain ⟨markers, name, params, ctorMarkers, parents, members, extent⟩ := c
  simp only [ClassDecl.unplaced, Typing.classEntry, ClassEntry.unplaced, h.symbol, h.methodsOf,
    h.otherCtorsOf, h.memberSymbolsOf]

omit h in
theorem numbersAll_unplaced (markers : List MarkerDecl) :
    MarkerDecl.numbersAll (markers.map MarkerDecl.unplaced) = MarkerDecl.numbersAll markers := by
  rw [MarkerDecl.numbersAll, List.flatMap_map]
  rfl

mutual

/-- What a program declares without places is what the program without places declares. -/
theorem Site.Agrees.classDeclarations :
    ∀ (outer : Option String) (c : ClassDecl),
      (classDeclarations s' outer c.unplaced).map Declaration.unplaced =
        (classDeclarations s outer c).map Declaration.unplaced
  | outer, .mk markers name params ctorMarkers parents members extent => by
    have hself := h.classEntry outer (.mk markers name params ctorMarkers parents members extent)
    have hmembers := memberDeclarations (qualifiedName outer name) 0 members
    rw [ClassDecl.unplaced] at hself ⊢
    rw [Typing.classDeclarations, Typing.classDeclarations, List.map_cons, List.map_cons, hmembers]
    simp only [Declaration.unplaced, hself, ← List.map_append, numbersAll_unplaced]

theorem Site.Agrees.memberDeclarations :
    ∀ (owner : String) (index : Nat) (members : List Member),
      (memberDeclarations s' owner index (Member.unplacedAll members)).map Declaration.unplaced =
        (memberDeclarations s owner index members).map Declaration.unplaced
  | owner, index, [] => by
    rw [Member.unplacedAll, Typing.memberDeclarations, Typing.memberDeclarations]
  | owner, index, .func f :: ms => by
    rw [Member.unplacedAll, Member.unplaced, Typing.memberDeclarations, Typing.memberDeclarations,
      List.map_cons, List.map_cons, memberDeclarations owner index ms]
    simp only [Declaration.unplaced, h.function, FuncDecl.markers_unplaced, numbersAll_unplaced]
  | owner, index, .ctor c :: ms => by
    rw [Member.unplacedAll, Member.unplaced, Typing.memberDeclarations, Typing.memberDeclarations,
      List.map_cons, List.map_cons, memberDeclarations owner (index + 1) ms]
    simp only [Declaration.unplaced, h.otherCtor, CtorDecl.markers_unplaced, numbersAll_unplaced]
  | owner, index, .classDecl c :: ms => by
    rw [Member.unplacedAll, Member.unplaced, Typing.memberDeclarations, Typing.memberDeclarations,
      List.map_append, List.map_append, classDeclarations (some owner) c,
      memberDeclarations owner index ms]
  | owner, index, .stmt _ :: ms => by
    rw [Member.unplacedAll, Member.unplaced, Typing.memberDeclarations, Typing.memberDeclarations,
      memberDeclarations owner index ms]

end

theorem Site.Agrees.itemDeclarations (item : Item) :
    (itemDeclarations s' item.unplaced).map Declaration.unplaced =
      (itemDeclarations s item).map Declaration.unplaced := by
  cases item with
  | func f =>
    simp only [Item.unplaced, Typing.itemDeclarations, List.map_cons, List.map_nil,
      Declaration.unplaced, h.function, FuncDecl.markers_unplaced, numbersAll_unplaced]
  | classDecl c => exact h.classDeclarations none c
  | exception _ => rfl
  | stmt _ => rfl

end Sites

end Typing

end CheckedExceptions
