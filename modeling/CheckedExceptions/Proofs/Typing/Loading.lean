import CheckedExceptions.Proofs.Policy
import CheckedExceptions.Proofs.Syntax.Declarations
import CheckedExceptions.Proofs.Syntax.Placement
import CheckedExceptions.Proofs.Typing.Registration
import CheckedExceptions.Proofs.Typing.Resolution
import CheckedExceptions.Typing.Program

/-!
From a text to a program that can be checked. A text is refused by the parser, or it is a program;
registering its exception types and resolving its names finds a fault of the program or a number
with too many digits, or gives a tree that refers only to what is registered and declared. Such a
tree can be checked under every policy.
-/
namespace CheckedExceptions

open CheckedExceptions.Language
open CheckedExceptions.Hierarchy (Ordered Grown)

/-- Whatever the tree refers to is registered in the program's table, or declared in it. -/
def TypedProgram.Linked (program : TypedProgram) : Prop :=
  program.unit.Resolved program.hierarchy program.declarations.symbols

/-- A linked program is accepted or refused by a check, and never stops it. -/
theorem TypedProgram.Linked.check {program : TypedProgram} (hlinked : program.Linked)
    (hbuiltin : Hierarchy.builtin.entries <:+ program.hierarchy.entries) (p : Policy) :
    ∃ verdict, program.check p = .ok verdict := by
  have hroots := Hierarchy.roots_eq_builtin hbuiltin
  obtain ⟨events, hcheck⟩ := check_ok hroots p program.overrides.overridden hlinked.sound
  exact ⟨_, hcheck⟩

namespace Typing

/-- Resolving fails for a reason that lies in the program: all that is looked up is there. -/
theorem resolveProgram_safe (s : Site)
    (hthrowable : s.hierarchy.contains Hierarchy.throwableName = true) (p : Program) :
    Safe p.numbers (resolveProgram s p) fun program =>
      program.hierarchy = s.hierarchy ∧ program.Linked := by
  unfold resolveProgram
  cases hdeclarations : Declarations.ofProgram s p with
  | error e => exact Or.inr ⟨e, rfl, (Declarations.ofProgram_safe s p).of_error hdeclarations⟩
  | ok declarations =>
    have hclosed := (Declarations.ofProgram_safe s p).of_ok hdeclarations
    have hfinds := Context.finds_of_ofProgram hdeclarations
    have hoverrides := (Declarations.overrides_safe s declarations).weaken
      (List.nil_subset p.numbers)
    refine hoverrides.bind fun overrides _ => ?_
    have hends : Context.Ends _ _ _
        (Context.Halts ⟨s, declarations⟩ p.numbers True .initial false) :=
      Context.resolveItems_ends .initial p.items (fun _ => hfinds) (List.Subset.refl _)
    cases hrun : Context.resolveItems ⟨s, declarations⟩ p.items .initial with
    | error e env => exact Or.inr ⟨e, rfl, (hends.of_error hrun).blames hthrowable trivial⟩
    | ok body env =>
      have hinitial : Context.KnowsAll ⟨s, declarations⟩ .initial :=
        List.forall_mem_singleton.mpr (List.forall_mem_nil _)
      have hbody := (hends.of_ok hrun).fine hclosed hinitial
      exact safe_ok ⟨rfl, Node.resolved_of_children trivial hbody⟩

theorem typeProgram_eq (file : Option String) (p : Program) (h : Hierarchy) :
    typeProgram file p h =
      match registerExceptions file (exceptionDecls p) h with
      | .ok _ h' =>
        match resolveProgram ⟨file, h'⟩ p with
        | .ok program => .ok program h'
        | .error e => .error e h'
      | .error e h' => .error e h' := by
  unfold typeProgram
  change EStateM.bind _ _ h = _
  unfold EStateM.bind
  cases registerExceptions file (exceptionDecls p) h with
  | ok _ h' =>
    change (match resolveProgram ⟨file, h'⟩ p with
      | .ok program => pure program
      | .error e => throw e : Registering TypedProgram) h' =
      match resolveProgram ⟨file, h'⟩ p with
      | .ok program => .ok program h'
      | .error e => .error e h'
    cases resolveProgram ⟨file, h'⟩ p <;> rfl
  | error e h' => rfl

/-- A program is typed only after its exception types are registered and its names resolved. -/
theorem typeProgram_inv {file : Option String} {p : Program} {h h' : Hierarchy}
    {program : TypedProgram} (htyped : typeProgram file p h = .ok program h') :
    registerExceptions file (exceptionDecls p) h = .ok () h' ∧
      resolveProgram ⟨file, h'⟩ p = .ok program := by
  rw [typeProgram_eq] at htyped
  cases hrun : registerExceptions file (exceptionDecls p) h with
  | error e h₁ =>
    rw [hrun] at htyped
    cases htyped
  | ok _ h₁ =>
    simp only [hrun] at htyped
    cases hresolve : resolveProgram ⟨file, h₁⟩ p with
    | error e =>
      rw [hresolve] at htyped
      cases htyped
    | ok program' =>
      rw [hresolve] at htyped
      cases htyped
      exact ⟨rfl, hresolve⟩

/-- A program that consists of one statement has the error of that statement. -/
theorem typeProgram_stmt_error {file : Option String} {s : Stmt} {x : Option Extent}
    {h : Hierarchy} {e : Error} {env : Environment}
    (hs : Context.resolveStmt ⟨⟨file, h⟩, {}⟩ [] s .initial = .error e env) :
    typeProgram file ⟨[.stmt s], x⟩ h = .error e h := by
  have hitems : Context.resolveItems ⟨⟨file, h⟩, {}⟩ [.stmt s] .initial = .error e env := by
    rw [Context.resolveItems]
    exact bind_error hs
  have hdeclarations : Declarations.ofProgram ⟨file, h⟩ ⟨[.stmt s], x⟩ = .ok {} := rfl
  have hresolve : resolveProgram ⟨file, h⟩ ⟨[.stmt s], x⟩ = .error e := by
    unfold resolveProgram
    rw [hdeclarations]
    refine (bind_of_ok rfl _).trans ?_
    rw [hitems]
    rfl
  have hregister : registerExceptions file (exceptionDecls ⟨[.stmt s], x⟩) h = .ok () h := rfl
  rw [typeProgram_eq, hregister]
  simp only [hresolve]

/-- A program is to blame for an error, or is linked against the table with its exception types. -/
theorem typeProgram_linked (file : Option String) (p : Program) {h : Hierarchy}
    (hbuiltin : Grown .builtin h) :
    (∃ program, typeProgram file p h = .ok program program.hierarchy ∧
        Grown h program.hierarchy ∧ program.Linked) ∨
      ∃ e h', typeProgram file p h = .error e h' ∧ e.Blames p.numbers := by
  have hregister := registerExceptions_registers file (exceptionDecls p) h hbuiltin.ordered
  rw [typeProgram_eq]
  cases hrun : registerExceptions file (exceptionDecls p) h with
  | error e h' =>
    rw [hrun] at hregister
    cases hregister with
    | fault cause span _ => exact Or.inr ⟨_, h', rfl, .program cause span⟩
  | ok _ h' =>
    rw [hrun] at hregister
    cases hregister with
    | ok _ hgrown =>
      have hnamed : Hierarchy.Named h'.entries Hierarchy.throwableName :=
        (Hierarchy.contains_iff.mp rfl).of_suffix (hbuiltin.trans hgrown).suffix
      rcases resolveProgram_safe ⟨file, h'⟩ (Hierarchy.contains_iff.mpr hnamed) p with
        ⟨program, hresolve, hhierarchy, hlinked⟩ | ⟨e, hresolve, hblames⟩
      · refine Or.inl ⟨program, ?_, ?_, hlinked⟩
        · simp only [hresolve, hhierarchy]
        · rw [hhierarchy]
          exact hgrown
      · refine Or.inr ⟨e, h', ?_, hblames⟩
        simp only [hresolve]

end Typing

theorem Language.parseProgram_of_derive {source : String} {d : Derivation} {p : Program}
    (hderive : derive source = .ok d) (hp : Program.ofTree? d.tree = some p) :
    parseProgram source = .ok p := by
  simp only [parseProgram, parse, hderive, Except.map, bind, Except.bind, hp]

section LongNumbers

/-- `let x = ` and a number. -/
def assignment (digits : String) : Derivation :=
  let leaf (t : Terminal) (text : String) (column : Nat) : Derivation :=
    .leaf ⟨t, text, ⟨⟨1, column⟩, ⟨1, column + text.length⟩⟩⟩
  let number : Derivation :=
    .leaf ⟨.number, digits, ⟨⟨1, 9⟩, Position.after ⟨1, 9⟩ digits.toList⟩⟩
  let choice (n m : NonTerminal) (d : Derivation) : Derivation :=
    .node ⟨n, none, [.nonTerminal m]⟩ [d]
  let atom : Derivation := .node ⟨.atom, some .number, [.terminal .number]⟩ [number]
  let value := choice .expr .selection (choice .selection .atom atom)
  let statement : Derivation := .node ⟨.letStmt, some .letStmt, [.terminal (.word .letKw),
      .terminal .name, .terminal (.mark .equal), .nonTerminal .expr]⟩
    [leaf (.word .letKw) "let" 1, leaf .name "x" 5, leaf (.mark .equal) "=" 7, value]
  .node ⟨.start, some .start, [.nonTerminal .items]⟩
    [choice .items .item (choice .item .stmt (choice .stmt .letStmt statement))]

theorem derives_assignment (digits : String) :
    Derives Grammar.productions (assignment digits) := by
  repeat'
    first
    | exact .leaf _
    | refine .node (by decide +kernel) rfl ?_
    | exact List.forall_mem_nil _
    | refine List.forall_mem_cons.mpr ⟨?_, ?_⟩

theorem writable_assignment {digits : String} (hdigits : Terminal.Spells .number digits.toList) :
    ∀ t ∈ (assignment digits).tokens, t.Writable := by
  have hx : ∀ x, Token.Writable ⟨.name, "x", x⟩ := Token.writable_name
    ⟨'x', [], rfl, by decide, List.forall_mem_nil _⟩ (by decide)
  have hnumber (x : Extent) : Token.Writable ⟨.number, digits, x⟩ := ⟨hdigits, nofun⟩
  have hlet (x : Extent) : Token.Writable ⟨.word .letKw, "let", x⟩ := ⟨rfl, nofun⟩
  simp only [assignment, Derivation.tokens, Derivation.tokensAll, List.cons_append,
    List.nil_append, List.append_nil, List.forall_mem_cons]
  exact ⟨hlet _, hx _, Token.writable_mark .equal _, hnumber _, List.forall_mem_nil _⟩

def assignmentPieces (digits : String) : List Piece :=
  (["", " ", " ", " "].zip (assignment digits).tokens).map fun (gap, t) => ⟨gap.toList, t⟩

theorem derive_assignment {digits : String} (hdigits : Terminal.Spells .number digits.toList) :
    derive ("let x = " ++ digits) = .ok (assignment digits) := by
  have hlayout : ∀ q ∈ assignmentPieces digits, Layout q.gap := by
    intro q hq
    obtain ⟨⟨gap, t⟩, hmem, rfl⟩ := List.mem_map.mp hq
    have hgaps : ∀ gap ∈ ["", " ", " ", " "], gap = "" ∨ gap = " " := by decide
    rcases hgaps gap (List.of_mem_zip hmem).1 with rfl | rfl
    · exact .nil
    · exact .blank rfl .nil
  have htokens : (assignmentPieces digits).map (·.token) = (assignment digits).tokens := rfl
  have hwritten : written (assignmentPieces digits) [] = ("let x = " ++ digits).toList := by
    rw [String.toList_append]
    change "let x = ".toList ++ (digits.toList ++ []) = _
    rw [List.append_nil]
  rw [← String.ofList_toList (s := "let x = " ++ digits), ← hwritten]
  refine derive_of_placed (derives_assignment digits) rfl htokens ?_
    (wellWritten_of_tokens (derives_assignment digits) rfl (writable_assignment hdigits) htokens
      hlayout) ?_ (.closed .nil)
  · exact ⟨rfl, rfl, rfl, rfl, trivial⟩
  · have hgaps : ∀ q ∈ (assignmentPieces digits).tail, q.gap = [' '] := by
      simp [assignmentPieces, assignment, Derivation.tokens, Derivation.tokensAll]
    intro q hq
    rw [hgaps q hq]
    exact List.cons_ne_nil _ _

/-- A number that is too long can be parsed, but it has no value. -/
theorem load_assignment (file : Option String) {digits : String}
    (hdigits : Terminal.Spells .number digits.toList)
    (hlong : Typing.maxDigits < digits.length) :
    (load .builtin file ("let x = " ++ digits)).1 =
      .error (.typing (.tooManyDigits digits.length)) := by
  have hvalue : Typing.numberValue digits = .error (.tooManyDigits digits.length) :=
    if_neg (Nat.not_le.mpr hlong)
  let stop := Position.after ⟨1, 9⟩ digits.toList
  let statement : Stmt := .letBinding "x" none (.number digits ⟨⟨1, 9⟩, stop⟩) ⟨⟨1, 1⟩, stop⟩
  have hp : Program.ofTree? (assignment digits).tree =
      some ⟨[.stmt statement], some ⟨⟨1, 1⟩, stop⟩⟩ := rfl
  have hstatement : Typing.Context.resolveStmt ⟨⟨file, .builtin⟩, {}⟩ [] statement .initial =
      .error (.tooManyDigits digits.length) .initial := by
    rw [Typing.Context.resolveStmt, Typing.Context.resolveExpr, hvalue]
    rfl
  simp only [load, parseProgram_of_derive (derive_assignment hdigits) hp,
    Typing.typeProgram_stmt_error hstatement]

end LongNumbers

/-- Every text is refused by the parser, or has a fault, or has a number with more digits than a
number may have, or is a program whose tree refers only to what is registered and declared and which
can be checked under every policy. Texts that are faultless but for the length of a number do
exist. -/
theorem load_checkable (file : Option String) :
    (∀ source,
      (∃ e, Language.parse source = .error e ∧
        (load .builtin file source).1 = .error (.syntactic e)) ∨
      (∃ cause span, (load .builtin file source).1 = .error (.typing (.program cause span))) ∨
      (∃ p digits, Language.parseProgram source = .ok p ∧ digits ∈ p.numbers ∧
        Typing.maxDigits < digits.length ∧
        (load .builtin file source).1 = .error (.typing (.tooManyDigits digits.length))) ∨
      ∃ program, (load .builtin file source).1 = .ok program ∧
        (∀ n, program.unit.Inside n →
          n.Admissible program.hierarchy program.declarations.symbols) ∧
        ∀ p, ∃ verdict, program.check p = .ok verdict) ∧
    ∀ digits : String, Terminal.Spells .number digits.toList →
      Typing.maxDigits < digits.length →
      (load .builtin file ("let x = " ++ digits)).1 =
        .error (.typing (.tooManyDigits digits.length)) := by
  refine ⟨fun source => ?_, fun digits => load_assignment file⟩
  cases hparse : Language.parse source with
  | error e =>
    refine Or.inl ⟨e, rfl, ?_⟩
    simp only [load, Language.parseProgram, hparse]
    rfl
  | ok tree =>
    obtain ⟨p, hp⟩ := Language.ofTree?_of_parse hparse
    have hprogram : Language.parseProgram source = .ok p := by
      simp only [Language.parseProgram, hparse, bind, Except.bind, hp]
    right
    have hbuiltin := Grown.refl Hierarchy.ordered_builtin
    rcases Typing.typeProgram_linked file p hbuiltin with
      ⟨program, hrun, hgrown, hlinked⟩ | ⟨e, h', hrun, hblames⟩
    · refine Or.inr (Or.inr ⟨program, ?_, hlinked, hlinked.check hgrown.suffix⟩)
      simp only [load, hprogram, hrun]
    · have hload : (load .builtin file source).1 = .error (.typing e) := by
        simp only [load, hprogram, hrun]
      cases hblames with
      | program cause span => exact Or.inl ⟨cause, span, hload⟩
      | @digits digits hmem hlong => exact Or.inr (Or.inl ⟨p, digits, hprogram, hmem, hlong, hload⟩)

theorem load_checkable_of_longNumber :
    (load .builtin none ("let x = " ++ String.ofList (List.replicate 4301 '1'))).1 =
      .error (.typing (.tooManyDigits 4301)) := by
  have hlength : (String.ofList (List.replicate 4301 '1')).length = 4301 := by
    rw [String.length_ofList, List.length_replicate]
  have hspells : Terminal.Spells .number (String.ofList (List.replicate 4301 '1')).toList := by
    rw [String.toList_ofList]
    refine ⟨List.cons_ne_nil _ _, fun c hc => ?_⟩
    rw [List.eq_of_mem_replicate hc]
    rfl
  have hlong : Typing.maxDigits < (String.ofList (List.replicate 4301 '1')).length := by
    rw [hlength]
    decide
  have hload := (load_checkable none).2 _ hspells hlong
  rwa [hlength] at hload

end CheckedExceptions
