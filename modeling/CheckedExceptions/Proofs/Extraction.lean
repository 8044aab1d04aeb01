import CheckedExceptions.Proofs.Frames
import Mathlib.Data.List.Forall2

/-!
What a declaration has to be read as, told without a reader and without a memory. Each `throws`
marker of the symbols names one type, and the declaration is the list of these types; or there is a
first marker that names none, and the declaration is invalid because of it. Whatever has been read
and forgotten before, a memory of readings answers just this.
-/
namespace CheckedExceptions

theorem TypeRef.type?_eq_some {r : TypeRef} {t : ExceptionType} :
    r.type? = some t ↔ r = .resolved t := by
  cases r <;> simp [type?]

namespace Marker

variable {m : Marker} {t : ExceptionType}

/-- The type that a marker names: a class literal that is its only argument, or, where the arguments
are anything else, its only type argument. -/
inductive Names (m : Marker) (t : ExceptionType) : Prop
  | literal (hargs : m.form.args = [.classLiteral (.resolved t)])
  | typeArgument (hargs : ∀ r, m.form.args ≠ [.classLiteral r])
      (htypes : m.form.typeArgs = [.resolved t])

theorem declared?_of_literal {r : TypeRef} (h : m.form.args = [.classLiteral r]) :
    m.declared? = r.type? := by
  rw [declared?, h]

theorem declared?_of_types (h : ∀ r, m.form.args ≠ [.classLiteral r]) :
    m.declared? = some t ↔ m.form.typeArgs = [.resolved t] := by
  unfold declared?
  split
  · rename_i r hargs
    exact absurd hargs (h r)
  · rename_i r htypes _
    rw [htypes, TypeRef.type?_eq_some, List.cons.injEq, and_iff_left rfl]
  · rename_i hmany
    have hne : m.form.typeArgs ≠ [.resolved t] := fun htypes => hmany _ htypes
    simp [hne]

/-- A marker declares the type that it names. -/
theorem declared?_eq_some_iff : m.declared? = some t ↔ m.Names t := by
  by_cases hliteral : ∃ r, m.form.args = [.classLiteral r]
  · obtain ⟨r, hargs⟩ := hliteral
    rw [declared?_of_literal hargs, TypeRef.type?_eq_some]
    constructor
    · rintro rfl
      exact .literal hargs
    · intro hnames
      cases hnames with
      | literal hargs' =>
        rw [hargs] at hargs'
        simpa using hargs'
      | typeArgument hne _ => exact absurd hargs (hne r)
  · have hne : ∀ r, m.form.args ≠ [.classLiteral r] := fun r hargs => hliteral ⟨r, hargs⟩
    rw [declared?_of_types hne]
    constructor
    · exact .typeArgument hne
    · intro hnames
      cases hnames with
      | literal hargs => exact absurd hargs (hne _)
      | typeArgument _ htypes => exact htypes

theorem declared?_eq_none_iff : m.declared? = none ↔ ∀ t, ¬ m.Names t := by
  rw [Option.eq_none_iff_forall_ne_some]
  exact forall_congr' fun t => not_congr declared?_eq_some_iff

/-- Texts one behind the other, with a comma and a blank between them. -/
inductive Listed : List String → List Char → Prop
  | last (t : String) : Listed [t] t.toList
  | more (t : String) {ts : List String} {cs : List Char} (hrest : Listed ts cs) :
      Listed (t :: ts) (t.toList ++ ',' :: ' ' :: cs)

/-- Texts in brackets, or nothing if there are none. -/
inductive Bracketed (left right : Char) : List String → List Char → Prop
  | none : Bracketed left right [] []
  | some {ts : List String} {cs : List Char} (hlisted : Listed ts cs) :
      Bracketed left right ts (left :: (cs ++ [right]))

theorem listed_intercalate (t : String) (ts : List String) :
    Listed (t :: ts) (", ".intercalate (t :: ts)).toList := by
  induction ts generalizing t with
  | nil =>
    rw [String.intercalate_singleton]
    exact .last t
  | cons u us ih =>
    rw [String.intercalate_cons_cons, String.toList_append, String.toList_append,
      List.append_assoc]
    exact .more t (ih u)

theorem bracketed_intercalate {α : Type} {left right : Char} {l r : String}
    (hl : l.toList = [left]) (hr : r.toList = [right]) (view : α → String) (parts : List α) :
    Bracketed left right (parts.map view)
      (if parts.isEmpty then "" else l ++ ", ".intercalate (parts.map view) ++ r).toList := by
  cases parts with
  | nil => exact .none
  | cons part parts =>
    rw [List.isEmpty_cons, if_neg Bool.false_ne_true, String.toList_append, String.toList_append,
      hl, hr, List.append_assoc]
    exact .some (listed_intercalate _ _)

/-- A marker is written with its name, its type arguments in square brackets and its arguments in
parentheses. -/
theorem text_written (m : Marker) :
    ∃ types args, m.text.toList = '@' :: (m.form.name.toList ++ types ++ args) ∧
      Bracketed '[' ']' (m.form.typeArgs.map TypeRef.text) types ∧
      Bracketed '(' ')' (m.form.args.map MarkerArg.render) args := by
  refine ⟨_, _, ?_, bracketed_intercalate (l := "[") (r := "]") rfl rfl TypeRef.text _,
    bracketed_intercalate (l := "(") (r := ")") rfl rfl MarkerArg.render _⟩
  rw [text, String.toList_append, String.toList_append, String.toList_append]
  rfl

end Marker

namespace Declared

/-- The types that a place of use gets, or what it reports. -/
abbrev Answer := Except Finding (List ExceptionType)

/-- The `throws` markers of the symbols, in order. -/
def throwsMarkers (symbols : List Symbol) : List Marker :=
  (symbols.flatMap (·.markers)).filter (·.name = "throws")

/-- The right answer where `owner` uses the symbols at a place. -/
inductive Answers (symbols : List Symbol) (span : Span) (owner : String) : Answer → Prop
  | types {types : List ExceptionType}
      (hnames : List.Forall₂ Marker.Names (throwsMarkers symbols) types) :
      Answers symbols span owner (.ok types)
  | invalid {before after : List Marker} {bad : Marker}
      (hmarkers : throwsMarkers symbols = before ++ bad :: after)
      (hbefore : ∀ m ∈ before, ∃ t, m.Names t) (hbad : ∀ t, ¬ bad.Names t) :
      Answers symbols span owner (.error (.invalidDeclaration span bad.text owner))

section Markers

variable {m bad : Marker} {ms : List Marker} {types : List ExceptionType}

theorem readMarkers_of_not_throws (hm : ¬ m.isThrows = true) :
    readMarkers (m :: ms) = readMarkers ms := by
  rw [readMarkers, if_neg hm]

theorem readMarkers_of_none (hm : m.isThrows = true) (hnone : m.declared? = none) :
    readMarkers (m :: ms) = .error m := by
  rw [readMarkers, if_pos hm, hnone]

theorem readMarkers_of_some {t : ExceptionType} (hm : m.isThrows = true)
    (hsome : m.declared? = some t) :
    readMarkers (m :: ms) = (readMarkers ms).map (t :: ·) := by
  rw [readMarkers, if_pos hm, hsome]

theorem map_cons_eq_ok {t : ExceptionType} {reading : Reading} :
    reading.map (t :: ·) = .ok types ↔ ∃ rest, reading = .ok rest ∧ types = t :: rest := by
  cases reading <;> simp [Except.map, eq_comm]

theorem map_cons_eq_error {t : ExceptionType} {reading : Reading} :
    reading.map (t :: ·) = .error bad ↔ reading = .error bad := by
  cases reading <;> simp [Except.map]

/-- A reading gives types only if each marker names the one in its place. -/
theorem readMarkers_eq_ok : readMarkers ms = .ok types ↔
    List.Forall₂ Marker.Names (ms.filter Marker.isThrows) types := by
  induction ms generalizing types with
  | nil =>
    rw [List.filter_nil, List.forall₂_nil_left_iff, readMarkers, Except.ok.injEq, eq_comm]
  | cons m ms ih =>
    by_cases hm : m.isThrows = true
    · rw [List.filter_cons_of_pos hm, List.forall₂_cons_left_iff]
      cases hdeclared : m.declared? with
      | none =>
        have hnone := Marker.declared?_eq_none_iff.mp hdeclared
        rw [readMarkers_of_none hm hdeclared]
        constructor
        · intro h
          cases h
        · rintro ⟨t, rest, hnames, -, -⟩
          exact absurd hnames (hnone t)
      | some t =>
        have ht := Marker.declared?_eq_some_iff.mp hdeclared
        rw [readMarkers_of_some hm hdeclared, map_cons_eq_ok]
        constructor
        · rintro ⟨rest, hrest, rfl⟩
          exact ⟨t, rest, ht, ih.mp hrest, rfl⟩
        · rintro ⟨t', rest, hnames, hrest, rfl⟩
          have heq := (Marker.declared?_eq_some_iff.mpr hnames).symm.trans hdeclared
          rw [Option.some.inj heq]
          exact ⟨rest, ih.mpr hrest, rfl⟩
    · rw [List.filter_cons_of_neg hm, readMarkers_of_not_throws hm]
      exact ih

/-- A reading fails only at the first marker that names no type. -/
theorem readMarkers_eq_error : readMarkers ms = .error bad ↔
    ∃ before after, ms.filter Marker.isThrows = before ++ bad :: after ∧
      (∀ m ∈ before, ∃ t, m.Names t) ∧ ∀ t, ¬ bad.Names t := by
  induction ms with
  | nil => simp [readMarkers]
  | cons m ms ih =>
    by_cases hm : m.isThrows = true
    · rw [List.filter_cons_of_pos hm]
      cases hdeclared : m.declared? with
      | none =>
        have hnone := Marker.declared?_eq_none_iff.mp hdeclared
        rw [readMarkers_of_none hm hdeclared]
        constructor
        · intro h
          cases h
          exact ⟨[], _, rfl, List.forall_mem_nil _, hnone⟩
        · rintro ⟨before, after, hsplit, hbefore, -⟩
          cases before with
          | nil => rw [(List.cons.inj hsplit).1]
          | cons first before =>
            obtain ⟨⟨t, ht⟩, -⟩ := List.forall_mem_cons.mp hbefore
            rw [← (List.cons.inj hsplit).1] at ht
            exact absurd ht (hnone t)
      | some t =>
        have ht := Marker.declared?_eq_some_iff.mp hdeclared
        rw [readMarkers_of_some hm hdeclared, map_cons_eq_error, ih]
        constructor
        · rintro ⟨before, after, hsplit, hbefore, hbad⟩
          refine ⟨m :: before, after, congrArg (m :: ·) hsplit, ?_, hbad⟩
          exact List.forall_mem_cons.mpr ⟨⟨t, ht⟩, hbefore⟩
        · rintro ⟨before, after, hsplit, hbefore, hbad⟩
          cases before with
          | nil =>
            rw [← (List.cons.inj hsplit).1] at hbad
            exact absurd ht (hbad t)
          | cons first before =>
            exact ⟨before, after, (List.cons.inj hsplit).2, (List.forall_mem_cons.mp hbefore).2,
              hbad⟩
    · rw [List.filter_cons_of_neg hm, readMarkers_of_not_throws hm]
      exact ih

end Markers

/-- A declaration that is read anew is answered rightly, and only one answer is right. -/
theorem declaration_eq_iff {symbols : List Symbol} {span : Span} {owner : String}
    {answer : Answer} :
    declaration symbols span owner = answer ↔ Answers symbols span owner answer := by
  constructor
  · rintro rfl
    unfold declaration
    cases hread : read symbols with
    | ok types => exact .types (readMarkers_eq_ok.mp hread)
    | error bad =>
      obtain ⟨before, after, hsplit, hbefore, hbad⟩ := readMarkers_eq_error.mp hread
      exact .invalid hsplit hbefore hbad
  · intro hanswers
    cases hanswers with
    | types hnames => exact declaration_eq_ok (readMarkers_eq_ok.mpr hnames) span owner
    | @invalid before after bad hsplit hbefore hbad =>
      have hread : read symbols = .error bad :=
        readMarkers_eq_error.mpr ⟨before, after, hsplit, hbefore, hbad⟩
      rw [declaration, hread]
      rfl

end Declared

namespace Readings

open Declared

/-- What a use is answered with. Forgetting has no answer. -/
def reply (r : Readings) : Use → Option Answer
  | .read symbols span owner => some (r.declaredBy symbols span owner).1
  | .forget => none

/-- The answers to uses one after the other. -/
def replies : Readings → List Use → List (Option Answer)
  | _, [] => []
  | r, u :: uses => r.reply u :: replies (r.use u) uses

/-- The right answer to a use. -/
inductive Use.Answered : Use → Option Answer → Prop
  | read {symbols : List Symbol} {span : Span} {owner : String} {answer : Answer}
      (hanswers : Answers symbols span owner answer) :
      Answered (.read symbols span owner) (some answer)
  | forget : Answered .forget none

/-- A faithful memory gives the right answer. -/
theorem reply_eq_iff {r : Readings} (hr : r.Faithful) {u : Use} {answer : Option Answer} :
    r.reply u = answer ↔ u.Answered answer := by
  cases u with
  | forget =>
    constructor
    · rintro rfl
      exact .forget
    · intro hanswered
      cases hanswered
      rfl
  | read symbols span owner =>
    have hanswer := (declaredBy_faithful hr symbols span owner).1
    rw [reply, hanswer]
    constructor
    · rintro rfl
      exact .read (declaration_eq_iff.mp rfl)
    · intro hanswered
      cases hanswered with
      | read hanswers => rw [declaration_eq_iff.mpr hanswers]

/-- All answers are right, if the memory is faithful in the beginning. -/
theorem replies_eq_iff {r : Readings} (hr : r.Faithful) {uses : List Use}
    {answers : List (Option Answer)} :
    replies r uses = answers ↔ List.Forall₂ Use.Answered uses answers := by
  induction uses generalizing r answers with
  | nil => rw [List.forall₂_nil_left_iff, replies, eq_comm]
  | cons u uses ih =>
    rw [List.forall₂_cons_left_iff, replies]
    constructor
    · rintro rfl
      exact ⟨_, _, (reply_eq_iff hr).mp rfl, (ih (faithful_use hr u)).mp rfl, rfl⟩
    · rintro ⟨answer, rest, hanswer, hrest, rfl⟩
      rw [(reply_eq_iff hr).mpr hanswer, (ih (faithful_use hr u)).mpr hrest]

/-- Whatever is read and forgotten, one use after the other, each use gets the one answer that is
right for its own symbols, place and owner, as if nothing had been read before. -/
theorem answers_ignore_history (uses : List Use) :
    (∀ answers, replies {} uses = answers ↔ List.Forall₂ Use.Answered uses answers) ∧
      replies {} uses = uses.map (reply {}) := by
  refine ⟨fun answers => replies_eq_iff faithful_empty, ?_⟩
  rw [replies_eq_iff faithful_empty, List.forall₂_map_right_iff, List.forall₂_same]
  exact fun u _ => (reply_eq_iff faithful_empty).mp rfl

/-- A bad marker, written on two lines, is reported where it is used. The second time it is found in
the memory. -/
example :
    let marker (line : Int) : Marker := ⟨⟨"throws", [.raw "E"], [.number 1]⟩, { line := some line }⟩
    let symbol (line : Int) : Symbol := ⟨"f", .function, [marker line]⟩
    let first : Use := .read [symbol 1] { line := some 3 } "g"
    (after [first]).reply (.read [symbol 2] { line := some 4 } "h") =
      some (.error (.invalidDeclaration { line := some 4 } "@throws[E](1)" "h")) ∧
    (after [first, .read [symbol 2] {} "h"]).size = 1 := by
  decide

end Readings

end CheckedExceptions
