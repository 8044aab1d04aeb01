import CheckedExceptions.Proofs.Basic
import CheckedExceptions.Proofs.Subtyping
import CheckedExceptions.Typing.Declarations

/-!
Registering the exception types of a program. Round after round, the table only grows and stays
ordered, also when a fault of the program ends the registration.
-/
namespace CheckedExceptions.Typing

open CheckedExceptions.Language
open CheckedExceptions.Hierarchy (Ordered Grown)

/-- A result or a fault of the program, after a table that started as `h` has grown. -/
inductive Outcome (h : Hierarchy) {α : Type} : EStateM.Result Error Hierarchy α → Prop
  | ok (a : α) {h' : Hierarchy} (hgrown : Grown h h') : Outcome h (.ok a h')
  | fault (cause : Cause) (span : Span) {h' : Hierarchy} (hgrown : Grown h h') :
      Outcome h (.error (.program cause span) h')

theorem Outcome.after {α : Type} {h h' : Hierarchy} {r : EStateM.Result Error Hierarchy α}
    (hgrown : Grown h h') (hr : Outcome h' r) : Outcome h r := by
  cases hr with
  | ok a hmore => exact .ok a (hgrown.trans hmore)
  | fault cause span hmore => exact .fault cause span (hgrown.trans hmore)

/-- The action succeeds or finds a fault of the program, and the table has grown either way. -/
def Registers {α : Type} (action : Registering α) : Prop :=
  ∀ h, Ordered h.entries → Outcome h (action h)

theorem registers_pure {α : Type} (a : α) : Registers (pure a) :=
  fun _ hordered => .ok a (.refl hordered)

theorem registers_fault {α : Type} (cause : Cause) (span : Span) :
    Registers (throw (.program cause span) : Registering α) :=
  fun _ hordered => .fault cause span (.refl hordered)

theorem Registers.bind {α β : Type} {x : Registering α} {f : α → Registering β}
    (hx : Registers x) (hf : ∀ a, Registers (f a)) : Registers (x >>= f) := by
  intro h hordered
  have hfirst := hx h hordered
  cases hrun : x h with
  | ok a h₁ =>
    rw [bind_ok hrun]
    rw [hrun] at hfirst
    cases hfirst with
    | ok _ hgrown => exact (hf a h₁ hgrown.ordered).after hgrown
  | error e h₁ =>
    rw [bind_error hrun]
    rw [hrun] at hfirst
    cases hfirst with
    | fault cause span hgrown => exact .fault cause span hgrown

/-- One type in turn: it is registered if its parent is, and waits otherwise. -/
theorem registerReady_cons (file : Option String) (d : ExceptionDecl) (ds : List ExceptionDecl)
    (h : Hierarchy) :
    registerReady file (d :: ds) h =
      if h.contains (parentName d) then
        match h.register d.name (some (parentName d)) with
        | .ok h' => registerReady file ds h'
        | .error e => .error (.program (.registration e) (.ofExtent file d.extent)) h
      else (do return d :: (← registerReady file ds) : Registering _) h := by
  rw [registerReady]
  change (if h.contains (parentName d) then _ else _ : Registering _) h = _
  split
  · cases h.register d.name (some (parentName d)) <;> rfl
  · rfl

theorem registerReady_registers (file : Option String) (decls : List ExceptionDecl) :
    Registers (registerReady file decls) := by
  induction decls with
  | nil => exact registers_pure []
  | cons d ds ih =>
    intro h hordered
    rw [registerReady_cons]
    split
    · cases hregister : h.register d.name (some (parentName d)) with
      | error e => exact registers_fault _ _ h hordered
      | ok h₁ =>
        have hgrown := Hierarchy.grown_register hordered hregister
        exact (ih h₁ hgrown.ordered).after hgrown
    · exact ih.bind (fun _ => registers_pure _) h hordered

theorem registerRounds_registers (file : Option String) (rounds : Nat)
    (pending : List ExceptionDecl) : Registers (registerRounds file rounds pending) := by
  induction rounds generalizing pending with
  | zero => exact registers_pure ()
  | succ rounds ih =>
    rw [registerRounds]
    refine (registerReady_registers file pending).bind fun waiting => ?_
    cases waiting with
    | nil => exact registers_pure ()
    | cons d waiting =>
      by_cases hstuck : (d :: waiting).length = pending.length
      · simp only [hstuck, ↓reduceIte]
        exact (registers_fault _ _).bind fun _ => ih _
      · simp only [hstuck, ↓reduceIte]
        exact (registers_pure _).bind fun _ => ih _

/-- Registering the types of a program leaves an ordered table that holds all it held before. -/
theorem registerExceptions_registers (file : Option String) (decls : List ExceptionDecl) :
    Registers (registerExceptions file decls) :=
  registerRounds_registers file decls.length decls

theorem grown_of_registerExceptions {file : Option String} {decls : List ExceptionDecl}
    {h h' : Hierarchy} (hordered : Ordered h.entries)
    (hrun : registerExceptions file decls h = .ok () h') : Grown h h' := by
  have houtcome := registerExceptions_registers file decls h hordered
  rw [hrun] at houtcome
  cases houtcome with
  | ok _ hgrown => exact hgrown

end CheckedExceptions.Typing
