import CheckedExceptions.Hierarchy
import CheckedExceptions.Span

/-!
The stack of open propagation points. Each has a frame of candidates, exceptions that may still
escape from it, in the order in which they were met. Only the innermost frame ever changes.
-/
namespace CheckedExceptions

/-- An exception that may be thrown at a place. -/
structure Candidate where
  span : Span
  type : ExceptionType
deriving DecidableEq, Repr

/-- The rules that decide which candidates stay. -/
structure Classification where
  isUnchecked : ExceptionType → Bool
  isSubtype : ExceptionType → ExceptionType → Bool

/-- Whether a type is, or extends, one of the handled ones. -/
def Classification.handles (c : Classification) (handled : List ExceptionType)
    (t : ExceptionType) : Bool :=
  handled.any (c.isSubtype t)

structure Scopes where
  /-- The frames, innermost first. -/
  frames : List (List Candidate) := []
deriving DecidableEq, Repr

/-- A candidate can only be added, caught or reported inside a propagation point. -/
inductive ScopeError
  | noActiveFrame
deriving DecidableEq, Repr

def ScopeError.message : ScopeError → String
  | noActiveFrame => "no active propagation frame"

namespace Scopes

def depth (s : Scopes) : Nat := s.frames.length

def top (s : Scopes) : Except ScopeError (List Candidate) :=
  match s.frames with
  | [] => .error .noActiveFrame
  | frame :: _ => .ok frame

/-- The frame at a depth from the outermost, which has depth zero; a negative depth counts from the
innermost, which has depth minus one. -/
def frame? (s : Scopes) (depth : Int) : Option (List Candidate) :=
  match depth with
  | .ofNat n => s.frames.reverse[n]?
  | .negSucc n => s.frames[n]?

def enter (s : Scopes) : Scopes := ⟨[] :: s.frames⟩

/-- Adds the checked ones among the candidates to the innermost frame, and counts them. -/
def add (c : Classification) (candidates : List Candidate) (s : Scopes) :
    Except ScopeError (Nat × Scopes) :=
  match s.frames with
  | [] => .error .noActiveFrame
  | frame :: outer =>
    let kept := candidates.filter fun x => !c.isUnchecked x.type
    .ok (kept.length, ⟨(frame ++ kept) :: outer⟩)

/-- Removes the candidates of handled types from the innermost frame, and counts them. -/
def filter (c : Classification) (handled : List ExceptionType) (s : Scopes) :
    Except ScopeError (Nat × Scopes) :=
  match s.frames with
  | [] => .error .noActiveFrame
  | frame :: outer =>
    let kept := frame.filter fun x => !c.handles handled x.type
    .ok (frame.length - kept.length, ⟨kept :: outer⟩)

/-- Closes the innermost frame and returns its candidates of undeclared types. -/
def leave (c : Classification) (declared : List ExceptionType) (s : Scopes) :
    Except ScopeError (List Candidate × Scopes) :=
  match s.frames with
  | [] => .error .noActiveFrame
  | frame :: outer => .ok (frame.filter fun x => !c.handles declared x.type, ⟨outer⟩)

end Scopes

end CheckedExceptions
