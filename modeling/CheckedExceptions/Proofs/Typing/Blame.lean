import CheckedExceptions.Typing.Declarations

/-!
What a program can be blamed for. An error of typing is a fault in the program, or one of its
numbers has too many digits; the numbers stand in its markers and in its expressions. A computation
is safe if it gives a result or such an error.
-/
namespace CheckedExceptions

namespace Language

mutual

/-- The numbers in an expression, in order. -/
def Expr.numbers : Expr → List String
  | .ref _ _ | .this _ | .string _ _ | .truth _ _ => []
  | .number digits _ => [digits]
  | .call _ args _ | .new _ args _ | .thisCall args _ => Expr.numbersAll args
  | .methodCall receiver _ args _ => receiver.numbers ++ Expr.numbersAll args
  | .binary _ left right _ => left.numbers ++ right.numbers

def Expr.numbersAll : List Expr → List String
  | [] => []
  | e :: es => e.numbers ++ Expr.numbersAll es

end

def Expr.optionNumbers : Option Expr → List String
  | none => []
  | some e => e.numbers

mutual

def Stmt.numbers : Stmt → List String
  | .letBinding _ _ value _ | .assign _ value _ | .raise value _ | .returning value _ =>
    value.numbers
  | .ifElse condition thenBlock none _ => condition.numbers ++ thenBlock.numbers
  | .ifElse condition thenBlock (some elseBranch) _ =>
    condition.numbers ++ (thenBlock.numbers ++ elseBranch.numbers)
  | .whileLoop condition body _ => condition.numbers ++ body.numbers
  | .tryCatch body handlers none _ => body.numbers ++ Handler.numbersAll handlers
  | .tryCatch body handlers (some finalizer) _ =>
    body.numbers ++ (Handler.numbersAll handlers ++ finalizer.numbers)
  | .block b => b.numbers
  | .expr e => e.numbers

def Stmt.numbersAll : List Stmt → List String
  | [] => []
  | s :: ss => s.numbers ++ Stmt.numbersAll ss

def Block.numbers : Block → List String
  | .mk stmts _ => Stmt.numbersAll stmts

def Handler.numbers : Handler → List String
  | .mk _ guard body _ => Expr.optionNumbers guard ++ body.numbers

def Handler.numbersAll : List Handler → List String
  | [] => []
  | h :: hs => h.numbers ++ Handler.numbersAll hs

end

mutual

/-- The numbers in a class, those of its markers included. -/
def ClassDecl.numbers : ClassDecl → List String
  | .mk markers _ _ ctorMarkers _ members _ =>
    MarkerDecl.numbersAll (markers ++ ctorMarkers) ++ Member.numbersAll members

def Member.numbersAll : List Member → List String
  | [] => []
  | .func f :: ms => MarkerDecl.numbersAll f.markers ++ (f.body.numbers ++ Member.numbersAll ms)
  | .ctor k :: ms => MarkerDecl.numbersAll k.markers ++ (k.body.numbers ++ Member.numbersAll ms)
  | .classDecl k :: ms => k.numbers ++ Member.numbersAll ms
  | .stmt s :: ms => s.numbers ++ Member.numbersAll ms

end

def Item.numbers : Item → List String
  | .exception _ => []
  | .func f => MarkerDecl.numbersAll f.markers ++ f.body.numbers
  | .classDecl k => k.numbers
  | .stmt s => s.numbers

def Program.numbers (p : Program) : List String := p.items.flatMap Item.numbers

end Language

namespace Typing

open CheckedExceptions.Language

/-- An error that a program with these numbers is to blame for. -/
inductive Error.Blames (numbers : List String) : Error → Prop
  | program (cause : Cause) (span : Span) : Blames numbers (.program cause span)
  | digits {digits : String} (hmem : digits ∈ numbers) (hlong : maxDigits < digits.length) :
      Blames numbers (.tooManyDigits digits.length)

theorem Error.Blames.mono {numbers numbers' : List String} (hsub : numbers ⊆ numbers') {e : Error}
    (h : e.Blames numbers) : e.Blames numbers' := by
  cases h with
  | program cause span => exact .program cause span
  | digits hmem hlong => exact .digits (hsub hmem) hlong

/-- The computation gives a result with the property, or an error that a program with these numbers
is to blame for. -/
def Safe {α : Type} (numbers : List String) (x : Except Error α) (P : α → Prop) : Prop :=
  (∃ a, x = .ok a ∧ P a) ∨ ∃ e, x = .error e ∧ e.Blames numbers

section Safe

variable {α β : Type} {numbers : List String} {P : α → Prop}

theorem safe_ok {a : α} (h : P a) : Safe numbers (.ok a) P := Or.inl ⟨a, rfl, h⟩

theorem safe_fail (s : Site) (cause : Cause) (x : Extent) : Safe numbers (s.fail cause x) P :=
  Or.inr ⟨_, rfl, .program cause (s.span x)⟩

theorem Safe.bind {x : Except Error α} {f : α → Except Error β} {Q : β → Prop}
    (hx : Safe numbers x P) (hf : ∀ a, P a → Safe numbers (f a) Q) : Safe numbers (x >>= f) Q := by
  rcases hx with ⟨a, rfl, ha⟩ | ⟨e, rfl, he⟩
  · exact hf a ha
  · exact Or.inr ⟨e, rfl, he⟩

theorem Safe.mono {x : Except Error α} {Q : α → Prop} (hx : Safe numbers x P)
    (h : ∀ a, P a → Q a) : Safe numbers x Q := by
  rcases hx with ⟨a, rfl, ha⟩ | herror
  · exact safe_ok (h a ha)
  · exact Or.inr herror

/-- More numbers can only be to blame for more. -/
theorem Safe.weaken {numbers' : List String} {x : Except Error α} (hx : Safe numbers x P)
    (hsub : numbers ⊆ numbers') : Safe numbers' x P := by
  rcases hx with hok | ⟨e, rfl, he⟩
  · exact Or.inl hok
  · exact Or.inr ⟨e, rfl, he.mono hsub⟩

theorem Safe.of_ok {x : Except Error α} {a : α} (h : Safe numbers x P) (hx : x = .ok a) : P a := by
  rcases h with ⟨a', ha', hP⟩ | ⟨e, he, -⟩
  · rw [hx] at ha'
    cases ha'
    exact hP
  · rw [hx] at he
    cases he

theorem Safe.of_error {x : Except Error α} {e : Error} (h : Safe numbers x P)
    (hx : x = .error e) : e.Blames numbers := by
  rcases h with ⟨a, ha, -⟩ | ⟨e', he', hblames⟩
  · rw [hx] at ha
    cases ha
  · rw [hx] at he'
    cases he'
    exact hblames

theorem safe_of_eq {x : Except Error α} {a : α} (h : x = .ok a) : Safe numbers x fun _ => True :=
  Or.inl ⟨a, h, trivial⟩

theorem safe_mapM {f : α → Except Error β} {l : List α} {Q : β → Prop}
    (hf : ∀ a ∈ l, Safe numbers (f a) Q) : Safe numbers (l.mapM f) fun bs => ∀ b ∈ bs, Q b := by
  induction l with
  | nil => exact safe_ok (List.forall_mem_nil _)
  | cons a l ih =>
    obtain ⟨ha, hl⟩ := List.forall_mem_cons.mp hf
    rw [List.mapM_cons]
    refine ha.bind fun b hb => (ih hl).bind fun bs hbs => safe_ok ?_
    exact List.forall_mem_cons.mpr ⟨hb, hbs⟩

end Safe

theorem found_ok_iff {α : Type} {key : Key} {o : Option α} {a : α} :
    found key o = .ok a ↔ o = some a := by
  cases o <;> simp [found]

/-- A number is read if it has no more digits than a number may have. -/
theorem numberValue_ok_iff {digits : String} {n : Nat} :
    numberValue digits = .ok n ↔ digits.length ≤ maxDigits ∧ digitsValue digits = n := by
  unfold numberValue
  split
  · rename_i hlength
    constructor
    · intro h
      cases h
      exact ⟨hlength, rfl⟩
    · rintro ⟨-, rfl⟩
      rfl
  · rename_i hlength
    constructor
    · intro h
      cases h
    · rintro ⟨h, -⟩
      exact absurd h hlength

theorem numberValue_safe {numbers : List String} {digits : String} (hmem : digits ∈ numbers) :
    Safe numbers (numberValue digits) fun n => digitsValue digits = n := by
  by_cases hlength : digits.length ≤ maxDigits
  · exact Or.inl ⟨_, numberValue_ok_iff.mpr ⟨hlength, rfl⟩, rfl⟩
  · refine Or.inr ⟨_, ?_, .digits hmem (Nat.lt_of_not_le hlength)⟩
    rw [numberValue, if_neg hlength]

theorem readNumbers_safe (numbers : List String) :
    Safe numbers (readNumbers numbers) fun _ => ∀ digits ∈ numbers, digits.length ≤ maxDigits := by
  induction numbers with
  | nil => exact safe_ok (List.forall_mem_nil _)
  | cons digits rest ih =>
    unfold readNumbers
    cases hvalue : numberValue digits with
    | error e =>
      exact Or.inr ⟨e, rfl, (numberValue_safe List.mem_cons_self).of_error hvalue⟩
    | ok n =>
      refine (ih.weaken (List.subset_cons_self _ _)).mono fun _ hrest => ?_
      exact List.forall_mem_cons.mpr ⟨(numberValue_ok_iff.mp hvalue).1, hrest⟩

/-- Numbers can all be read if none of them has too many digits. -/
theorem readNumbers_ok {numbers : List String}
    (h : ∀ digits ∈ numbers, digits.length ≤ maxDigits) : readNumbers numbers = .ok () := by
  induction numbers with
  | nil => rfl
  | cons digits rest ih =>
    obtain ⟨hfirst, hrest⟩ := List.forall_mem_cons.mp h
    rw [readNumbers, numberValue_ok_iff.mpr ⟨hfirst, rfl⟩]
    exact ih hrest

end Typing

end CheckedExceptions
