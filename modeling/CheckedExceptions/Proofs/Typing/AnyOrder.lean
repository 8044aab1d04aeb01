import CheckedExceptions.Proofs.Supertypes
import CheckedExceptions.Proofs.Typing.Rounds

/-!
Exception types may be declared in any order. The rounds always come to an end, since each of them
but the last has fewer types left to register; so the number of rounds that are allowed does not
matter once it reaches the number of types. What the table says about a name afterwards depends on
the declarations as a set, not on their order.
-/
namespace CheckedExceptions

open CheckedExceptions.Language
open CheckedExceptions.Hierarchy (Ordered)

namespace Hierarchy

/-- What the table says about a name: the entry it is registered with, if it is. -/
def entryNamed? (h : Hierarchy) (name : String) : Option Entry := h.entries.find? (·.name = name)

/-- Entries in any order in front of a table, under names that differ, are found before those that
were there. -/
theorem entryNamed?_of_perm {h h' : Hierarchy} {added new : List Entry}
    (hentries : h'.entries = added ++ h.entries) (hperm : added.Perm new)
    (hdistinct : (added.map (·.name)).Nodup) (name : String) :
    h'.entryNamed? name = (new.find? (·.name = name)).or (h.entryNamed? name) := by
  rw [entryNamed?, hentries, List.find?_append, find?_key_perm Entry.name hperm hdistinct,
    entryNamed?]

end Hierarchy

namespace Typing

variable {file : Option String} {h h' : Hierarchy} {pending waiting decls : List ExceptionDecl}

/-- One more round than there are types changes nothing: a round that leaves as many types as it
found is the last, and any other leaves fewer. -/
theorem registerRounds_succ {rounds : Nat} (hrounds : pending.length ≤ rounds) :
    registerRounds file (rounds + 1) pending h = registerRounds file rounds pending h := by
  induction rounds generalizing pending h with
  | zero =>
    have hnil : pending = [] := List.length_eq_zero_iff.mp (by omega)
    subst hnil
    rfl
  | succ rounds ih =>
    rw [registerRounds, registerRounds]
    cases hready : registerReady file pending h with
    | error e h₁ => rw [bind_error hready, bind_error hready]
    | ok waiting h₁ =>
      rw [bind_ok hready, bind_ok hready]
      cases waiting with
      | nil => rfl
      | cons d waiting =>
        by_cases hstuck : (d :: waiting).length = pending.length
        · simp only [hstuck, ↓reduceIte]
          rfl
        · simp only [hstuck, ↓reduceIte]
          obtain ⟨added, hround⟩ := registerReady_ok hready
          have hlength := hround.length_eq
          exact ih (by omega)

/-- The rounds end by themselves: with any larger number allowed the outcome is the same. -/
theorem registerRounds_eq {rounds : Nat} (hrounds : decls.length ≤ rounds) :
    registerRounds file rounds decls h = registerExceptions file decls h := by
  induction rounds, hrounds using Nat.le_induction with
  | base => rfl
  | succ rounds hle ih => rw [registerRounds_succ hle, ih]

theorem registrable_iff :
    h.Registrable (decls.map entryOf) ↔
      (decls.map (·.name)).Nodup ∧ (∀ d ∈ decls, h.contains d.name = false) ∧
        ∀ d ∈ decls, h.Grounded (decls.map entryOf) d.name := by
  have hnames : (decls.map entryOf).map (·.name) = decls.map (·.name) := List.map_map
  constructor
  · intro hr
    refine ⟨hnames ▸ hr.distinct, fun d hd => ?_, fun d hd => ?_⟩
    · exact hr.fresh (entryOf d) (List.mem_map_of_mem hd)
    · exact hr.grounded (entryOf d) (List.mem_map_of_mem hd)
  · rintro ⟨hdistinct, hfresh, hgrounded⟩
    exact ⟨hnames ▸ hdistinct, List.forall_mem_map.mpr hfresh, List.forall_mem_map.mpr hgrounded⟩

theorem entryNamed?_of_registerExceptions (hordered : Ordered h.entries)
    (hrun : registerExceptions file decls h = .ok () h') (name : String) :
    h'.entryNamed? name = ((decls.map entryOf).find? (·.name = name)).or (h.entryNamed? name) := by
  obtain ⟨added, hentries, hperm⟩ := registerExceptions_ok hrun
  have hall := (grown_of_registerExceptions hordered hrun).ordered
  rw [hentries] at hall
  exact Hierarchy.entryNamed?_of_perm hentries hperm (Hierarchy.ordered_append hall).1 name

/-- Whatever ends the registration early is a fault of the program. -/
theorem fault_of_registerExceptions (hordered : Ordered h.entries) {e : Error}
    (hrun : registerExceptions file decls h = .error e h') :
    ∃ cause span, e = .program cause span := by
  have houtcome := registerExceptions_registers file decls h hordered
  rw [hrun] at houtcome
  cases houtcome with
  | fault cause span _ => exact ⟨cause, span, rfl⟩

/-- It ends early just in case it cannot succeed. -/
theorem registerExceptions_error_iff (hordered : Ordered h.entries) :
    (∃ cause span h', registerExceptions file decls h = .error (.program cause span) h') ↔
      ¬ h.Registrable (decls.map entryOf) := by
  have hok : (∃ h', registerExceptions file decls h = .ok () h') ↔ _ :=
    registerExceptions_ok_iff hordered
  rw [← hok]
  cases hrun : registerExceptions file decls h with
  | ok a h' => simp
  | error e h' =>
    obtain ⟨cause, span, rfl⟩ := fault_of_registerExceptions hordered hrun
    simp

end Typing

/-- In every table that registrations lead to, the exception types of a program are registered in
rounds that come to an end by themselves. This succeeds just in case their names differ, are not
registered yet, and lead over declared parents to registered types. Then the table says about each
name what the declaration of the name says, or else what it said before. Otherwise there is a fault
of the program. With the declarations in another order the outcome is the same. -/
theorem exceptions_register_in_any_order (calls : List Registration) (file : Option String)
    (decls : List ExceptionDecl) :
    let h := Hierarchy.empty.performAll calls
    (∀ rounds, decls.length ≤ rounds →
      Typing.registerRounds file rounds decls h = Typing.registerExceptions file decls h) ∧
    ((∃ h', Typing.registerExceptions file decls h = .ok () h') ↔
      (decls.map (·.name)).Nodup ∧ (∀ d ∈ decls, h.contains d.name = false) ∧
        ∀ d ∈ decls, h.Grounded (decls.map Typing.entryOf) d.name) ∧
    (∀ h', Typing.registerExceptions file decls h = .ok () h' → ∀ name,
      h'.entryNamed? name =
        ((decls.map Typing.entryOf).find? (·.name = name)).or (h.entryNamed? name)) ∧
    (∀ e h', Typing.registerExceptions file decls h = .error e h' →
      ∃ cause span, e = .program cause span) ∧
    ∀ decls', decls.Perm decls' →
      (∀ h', Typing.registerExceptions file decls h = .ok () h' →
        ∃ h'', Typing.registerExceptions file decls' h = .ok () h'' ∧
          ∀ name, h''.entryNamed? name = h'.entryNamed? name) ∧
      ((∃ cause span h', Typing.registerExceptions file decls h =
          .error (.program cause span) h') ↔
        ∃ cause span h', Typing.registerExceptions file decls' h =
          .error (.program cause span) h') := by
  intro h
  have hordered : Ordered h.entries := (Hierarchy.grown_performAll .nil calls).ordered
  refine ⟨fun rounds => Typing.registerRounds_eq, ?_, ?_, ?_, fun decls' hperm => ⟨?_, ?_⟩⟩
  · rw [Typing.registerExceptions_ok_iff hordered, Typing.registrable_iff]
  · exact fun h' => Typing.entryNamed?_of_registerExceptions hordered
  · exact fun e h' => Typing.fault_of_registerExceptions hordered
  · intro h' hrun
    have hregistrable := (Typing.registerExceptions_ok_iff hordered).mp ⟨h', hrun⟩
    obtain ⟨h'', hrun'⟩ : ∃ h'', Typing.registerExceptions file decls' h = .ok () h'' :=
      (Typing.registerExceptions_ok_iff hordered).mpr
        (hregistrable.perm (hperm.map Typing.entryOf))
    refine ⟨h'', hrun', fun name => ?_⟩
    rw [Typing.entryNamed?_of_registerExceptions hordered hrun,
      Typing.entryNamed?_of_registerExceptions hordered hrun',
      find?_key_perm Entry.name (hperm.map Typing.entryOf) hregistrable.distinct]
  · rw [Typing.registerExceptions_error_iff hordered, Typing.registerExceptions_error_iff hordered]
    have hmap := hperm.map Typing.entryOf
    exact not_congr ⟨fun hr => hr.perm hmap, fun hr => hr.perm hmap.symm⟩

/-- The requests that lead to the builtin table. -/
def builtinRegistrations : List Registration :=
  Hierarchy.builtinTypes.map fun (name, parent) => ⟨name, parent.map .raw⟩

def declaring (name : String) (parent : Option String) : ExceptionDecl :=
  ⟨name, parent, ⟨⟨1, 1⟩, ⟨1, 1⟩⟩⟩

/-- Each type in front of the one that it extends, and one that extends no other. -/
def backwards : List ExceptionDecl :=
  [declaring "ResetException" (some "SocketException"),
    declaring "SocketException" (some "NetworkException"),
    declaring "NetworkException" (some "IOException"), declaring "TimeoutException" none]

/-- Two types that extend each other, and one that could be registered. -/
def lockedPair : List ExceptionDecl :=
  [declaring "Chicken" (some "Egg"), declaring "Egg" (some "Chicken"), declaring "Nest" none]

theorem exceptions_register_in_any_order_backwards :
    let h := Hierarchy.empty.performAll builtinRegistrations
    (∃ h' h'', Typing.registerExceptions none backwards h = .ok () h' ∧
      Typing.registerExceptions none backwards.reverse h = .ok () h'' ∧
      h''.entryNamed? "SocketException" = some ⟨"SocketException", some "NetworkException"⟩ ∧
      ∀ name, h''.entryNamed? name = h'.entryNamed? name) ∧
    ∃ cause span h', Typing.registerExceptions none lockedPair.reverse h =
      .error (.program cause span) h' := by
  intro h
  constructor
  · obtain ⟨-, -, hentry, -, hreordered⟩ :=
      exceptions_register_in_any_order builtinRegistrations none backwards
    have hrun : Typing.registerExceptions none backwards h = .ok () _ := rfl
    obtain ⟨h'', hrun', hsame⟩ := (hreordered _ backwards.reverse_perm.symm).1 _ hrun
    exact ⟨_, h'', hrun, hrun', (hsame _).trans (hentry _ hrun _), hsame⟩
  · obtain ⟨-, -, -, -, hreordered⟩ :=
      exceptions_register_in_any_order builtinRegistrations none lockedPair
    exact (hreordered _ lockedPair.reverse_perm.symm).2.mp ⟨_, _, _, rfl⟩

end CheckedExceptions
