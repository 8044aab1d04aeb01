import CheckedExceptions.Hierarchy
import CheckedExceptions.Span

/-!
Symbols of callables and classes, and the declaration markers they carry. Two symbols are the same
if they have the same name, kind and markers, wherever the markers were written.
-/
namespace CheckedExceptions

/-- A type named in a marker: an exception type, or a name that could not be resolved. -/
inductive TypeRef
  | resolved (t : ExceptionType)
  | raw (name : String)
deriving DecidableEq, Repr

namespace TypeRef

def text : TypeRef → String
  | resolved t => t.name
  | raw name => name

def type? : TypeRef → Option ExceptionType
  | resolved t => some t
  | raw _ => none

end TypeRef

inductive MarkerArg
  | classLiteral (t : TypeRef)
  | text (s : String)
  | number (n : Int)
deriving DecidableEq, Repr

def MarkerArg.render : MarkerArg → String
  | classLiteral t => s!"classOf[{t.text}]"
  | text s => "\"" ++ s ++ "\""
  | number n => toString n

/-- What a marker says. -/
structure MarkerForm where
  name : String
  typeArgs : List TypeRef := []
  args : List MarkerArg := []
deriving DecidableEq, Repr

/-- A marker and where it was written. -/
structure Marker where
  form : MarkerForm
  span : Span := {}
deriving DecidableEq, Repr

namespace Marker

def name (m : Marker) : String := m.form.name

/-- The marker as it is written in a program. -/
def text (m : Marker) : String :=
  let types := if m.form.typeArgs.isEmpty then ""
    else "[" ++ ", ".intercalate (m.form.typeArgs.map TypeRef.text) ++ "]"
  let args := if m.form.args.isEmpty then ""
    else "(" ++ ", ".intercalate (m.form.args.map MarkerArg.render) ++ ")"
  "@" ++ m.form.name ++ types ++ args

end Marker

inductive SymbolKind
  | function | method | constructor | classType
deriving DecidableEq, Repr

structure Symbol where
  qualifiedName : String
  kind : SymbolKind := .function
  markers : List Marker := []
deriving DecidableEq, Repr

namespace Symbol

/-- What makes two symbols the same. -/
structure Identity where
  qualifiedName : String
  kind : SymbolKind
  markers : List MarkerForm
deriving DecidableEq, Repr

def identity (s : Symbol) : Identity := ⟨s.qualifiedName, s.kind, s.markers.map (·.form)⟩

def isConstructor (s : Symbol) : Bool := s.kind = .constructor

/-- The part of the qualified name after its last dot. -/
def name (s : Symbol) : String :=
  String.ofList (s.qualifiedName.toList.reverse.takeWhile (· ≠ '.')).reverse

end Symbol

end CheckedExceptions
