import CheckedExceptions.Proofs.Agreement
import CheckedExceptions.Proofs.Supertypes
import CheckedExceptions.Proofs.Typing.Overriding

/-!
Sharing a table between sources. Whatever is registered or read later, and wherever that fails, a
table only grows, and growth changes nothing about the types that were in it. A program that was
typed before only throws and declares types that were registered by then, so its findings stay what
they were.
-/
namespace CheckedExceptions

open CheckedExceptions.Language
open CheckedExceptions.Hierarchy (Ordered Grown)

namespace Hierarchy

/-- Something that is done with a shared table: a type is registered, or a source is read. -/
inductive Use
  | register (c : Registration)
  | source (file : Option String) (text : String)

/-- The table after a use, be it successful or not. -/
def use (h : Hierarchy) : Use → Hierarchy
  | .register c => (h.perform c).2
  | .source file text => (load h file text).2

def useAll (h : Hierarchy) (uses : List Use) : Hierarchy := uses.foldl use h

theorem grown_load {h : Hierarchy} (hordered : Ordered h.entries) (file : Option String)
    (text : String) : Grown h (load h file text).2 := by
  unfold load
  cases Language.parseProgram text with
  | error e => exact .refl hordered
  | ok p =>
    have hregister := Typing.registerExceptions_registers file (Typing.exceptionDecls p) h hordered
    simp only [Typing.typeProgram_eq]
    cases hrun : Typing.registerExceptions file (Typing.exceptionDecls p) h with
    | error e h' =>
      rw [hrun] at hregister
      cases hregister with
      | fault _ _ hgrown => exact hgrown
    | ok _ h' =>
      rw [hrun] at hregister
      cases hregister with
      | ok _ hgrown =>
        simp only
        cases Typing.resolveProgram ⟨file, h'⟩ p with
        | error e => exact hgrown
        | ok program => exact hgrown

theorem grown_use {h : Hierarchy} (hordered : Ordered h.entries) (u : Use) :
    Grown h (h.use u) := by
  cases u with
  | register c => exact grown_perform hordered c
  | source file text => exact grown_load hordered file text

/-- A table only grows, whatever is done with it. -/
theorem grown_useAll {h : Hierarchy} (hordered : Ordered h.entries) (uses : List Use) :
    Grown h (h.useAll uses) := by
  induction uses generalizing h with
  | nil => exact .refl hordered
  | cons u uses ih =>
    have hgrown := grown_use hordered u
    exact hgrown.trans (ih hgrown.ordered)

theorem Grown.contains {h h' : Hierarchy} (hgrown : Grown h h') {name : String}
    (hname : h.contains name = true) : h'.contains name = true :=
  contains_iff.mpr ((contains_iff.mp hname).of_suffix hgrown.suffix)

/-- Growth keeps the parent of every type. -/
theorem parentOf?_of_suffix {entries entries' : List Entry} (hordered : Ordered entries')
    (h : entries <:+ entries') {t : ExceptionType} (hnamed : Named entries t.name) :
    parentOf? ⟨entries'⟩ t = parentOf? ⟨entries⟩ t := by
  induction hordered with
  | nil => rw [List.suffix_nil.mp h]
  | @cons e older hfresh hparent holder ih =>
    rcases List.suffix_cons_iff.mp h with rfl | h
    · rfl
    · have hne : e.name ≠ t.name := fun hname => hfresh (hname ▸ hnamed.of_suffix h)
      rw [parentOf?_cons, if_neg hne, ih h]

/-- Growth keeps the order between a type and all others. -/
theorem Grown.isSubtype {h h' : Hierarchy} (hgrown : Grown h h') {t : ExceptionType}
    (ht : h.contains t.name = true) (u : ExceptionType) : h'.isSubtype t u = h.isSubtype t u :=
  isSubtype_of_suffix hgrown.ordered hgrown.suffix (contains_iff.mp ht) u

/-- Growth keeps what every policy says about a type. -/
theorem Grown.isUnchecked {h h' : Hierarchy} (hgrown : Grown h h') {t : ExceptionType}
    (ht : h.contains t.name = true) (roots : Roots) (p : Policy) :
    p.isUnchecked h' roots t = p.isUnchecked h roots t := by
  have hsame : h'.isSubtype t = h.isSubtype t := funext (hgrown.isSubtype ht)
  rw [Policy.isUnchecked, Policy.isUnchecked, hsame]

theorem Grown.agreeOn {h h' : Hierarchy} (hgrown : Grown h h') {t : ExceptionType}
    (ht : h.contains t.name = true) (roots : Roots) (p : Policy)
    (overridden : Symbol → List Symbol) :
    (Rules.ofPolicy h roots p overridden).classification.AgreeOn
      (Rules.ofPolicy h' roots p overridden).classification t :=
  ⟨hgrown.isUnchecked ht roots p, hgrown.isSubtype ht⟩

end Hierarchy

namespace Typing

section Markers

variable {s : Site}

theorem contains_of_typeRef {name : String} {t : ExceptionType}
    (h : (s.typeRef name).type? = some t) : s.hierarchy.contains t.name = true := by
  unfold Site.typeRef at h
  cases hlookup : s.hierarchy.lookup name with
  | none =>
    rw [hlookup] at h
    cases h
  | some u =>
    rw [hlookup] at h
    cases h
    obtain ⟨hcontains, rfl⟩ := Context.contains_of_lookup hlookup
    exact hcontains

/-- A marker of a program only declares a type that is registered. -/
theorem contains_of_declared {m : MarkerDecl} {t : ExceptionType}
    (h : (s.marker m).declared? = some t) : s.hierarchy.contains t.name = true := by
  unfold Marker.declared? at h
  split at h
  · rename_i ref hargs
    obtain ⟨arg, harg, hliteral⟩ : ∃ arg ∈ m.args, s.markerArg arg = .classLiteral ref := by
      apply List.mem_map.mp
      rw [show m.args.map s.markerArg = _ from hargs]
      exact List.mem_singleton_self _
    cases arg with
    | classLiteral name =>
      cases hliteral
      exact contains_of_typeRef h
    | string _ => cases hliteral
    | number _ => cases hliteral
    | name _ => cases hliteral
  · rename_i ref htypes _
    obtain ⟨name, -, rfl⟩ : ∃ name ∈ m.typeArgs, s.typeRef name = ref := by
      apply List.mem_map.mp
      rw [show m.typeArgs.map s.typeRef = _ from htypes]
      exact List.mem_singleton_self _
    exact contains_of_typeRef h
  · cases h

/-- The symbol has its markers from the text of the program. -/
def Site.Marks (s : Site) (symbol : CheckedExceptions.Symbol) : Prop :=
  ∃ markers : List MarkerDecl, symbol.markers = markers.map s.marker

theorem Site.Marks.contains {symbol : CheckedExceptions.Symbol} (h : s.Marks symbol)
    {t : ExceptionType} (ht : symbol.Declares t) : s.hierarchy.contains t.name = true := by
  obtain ⟨markers, hmarkers⟩ := h
  obtain ⟨k, hk, -, hdeclared⟩ := ht
  rw [hmarkers] at hk
  obtain ⟨m, -, rfl⟩ := List.mem_map.mp hk
  exact contains_of_declared hdeclared

theorem marks_function (owner : Option String) (f : FuncDecl) :
    s.Marks (s.function owner f).symbol := by
  cases owner with
  | none => exact ⟨f.markers, rfl⟩
  | some q => exact ⟨f.markers, rfl⟩

mutual

theorem marks_classDeclarations :
    ∀ (outer : Option String) (c : ClassDecl),
      ∀ symbol ∈ declaredSymbols (classDeclarations s outer c), s.Marks symbol
  | outer, .mk markers name params ctorMarkers parents members extent => by
    rw [classDeclarations, declaredSymbols, List.flatMap_cons, List.forall_mem_append]
    refine ⟨?_, marks_memberDeclarations (qualifiedName outer name) 0 members⟩
    refine List.forall_mem_cons.mpr ⟨⟨markers, rfl⟩, ?_⟩
    exact List.forall_mem_singleton.mpr ⟨ctorMarkers, rfl⟩

theorem marks_memberDeclarations :
    ∀ (owner : String) (index : Nat) (members : List Member),
      ∀ symbol ∈ declaredSymbols (memberDeclarations s owner index members), s.Marks symbol
  | owner, index, [] => by
    rw [memberDeclarations]
    exact List.forall_mem_nil _
  | owner, index, .func f :: ms => by
    rw [memberDeclarations, declaredSymbols, List.flatMap_cons, List.forall_mem_append]
    refine ⟨?_, marks_memberDeclarations owner index ms⟩
    exact List.forall_mem_singleton.mpr (marks_function (some owner) f)
  | owner, index, .ctor k :: ms => by
    rw [memberDeclarations, declaredSymbols, List.flatMap_cons, List.forall_mem_append]
    refine ⟨?_, marks_memberDeclarations owner (index + 1) ms⟩
    exact List.forall_mem_singleton.mpr ⟨k.markers, rfl⟩
  | owner, index, .classDecl c :: ms => by
    rw [memberDeclarations, declaredSymbols, List.flatMap_append, List.forall_mem_append]
    exact ⟨marks_classDeclarations (some owner) c, marks_memberDeclarations owner index ms⟩
  | owner, index, .stmt _ :: ms => by
    rw [memberDeclarations]
    exact marks_memberDeclarations owner index ms

end

theorem marks_itemDeclarations (items : List Item) :
    ∀ symbol ∈ declaredSymbols (items.flatMap (itemDeclarations s)), s.Marks symbol := by
  intro symbol hsymbol
  obtain ⟨decl, hdecl, hmem⟩ := List.mem_flatMap.mp hsymbol
  obtain ⟨item, -, hitem⟩ := List.mem_flatMap.mp hdecl
  cases item with
  | func f =>
    rw [List.mem_singleton.mp hitem] at hmem
    rw [List.mem_singleton.mp hmem]
    exact marks_function none f
  | classDecl c =>
    exact marks_classDeclarations none c symbol (List.mem_flatMap.mpr ⟨decl, hitem, hmem⟩)
  | exception _ => cases hitem
  | stmt _ => cases hitem

/-- A declared symbol only declares types that are registered. -/
theorem Declarations.contains_of_declares {p : Program} {d : Declarations}
    (h : ofProgram s p = .ok d) {symbol : CheckedExceptions.Symbol} (hsymbol : symbol ∈ d.symbols)
    {t : ExceptionType} (ht : symbol.Declares t) : s.hierarchy.contains t.name = true := by
  obtain ⟨hsymbols, -, -⟩ := (addAll_safe s {} _).of_ok h
  rw [hsymbols, List.nil_append] at hsymbol
  exact (marks_itemDeclarations p.items symbol hsymbol).contains ht

end Markers

/-- All types that matter to a check of a program are registered once it is typed. -/
theorem judgesAll_of_resolveProgram {s : Site} {p : Program} {program : TypedProgram}
    (hthrowable : s.hierarchy.contains Hierarchy.throwableName = true)
    (h : resolveProgram s p = .ok program) :
    program.unit.JudgesAll program.overrides.overridden fun t =>
      program.hierarchy.contains t.name = true := by
  obtain ⟨hdeclarations, hoverrides, -, hhierarchy⟩ := resolveProgram_ok h
  obtain ⟨-, hlinked⟩ := (resolveProgram_safe s hthrowable p).of_ok h
  have hclosed := (Declarations.ofProgram_safe s p).of_ok hdeclarations
  have hdeclares : ∀ symbol ∈ program.declarations.symbols, ∀ t, symbol.Declares t →
      program.hierarchy.contains t.name = true := by
    intro symbol hsymbol t ht
    rw [hhierarchy]
    exact Declarations.contains_of_declares hdeclarations hsymbol ht
  intro n hn
  have hadmissible := hlinked n hn
  cases n with
  | raise value type span =>
    obtain ⟨u, rfl, hu⟩ := hadmissible
    intro t ht
    cases ht
    exact hu
  | invoke how symbol operands type span =>
    rintro t (ht | ⟨b, hb, ht⟩)
    · rcases hadmissible with hsymbol | ⟨name, -, rfl⟩
      · exact hdeclares symbol hsymbol t ht
      · obtain ⟨k, hk, -⟩ := ht
        cases hk
    · exact hdeclares b (Declarations.overridden_declared hclosed hoverrides hb) t ht
  | funcDef symbol params body span =>
    intro t ht
    refine hdeclares symbol ?_ t ht
    rw [← definedSymbols_of_resolveProgram h]
    exact Node.definedSymbols_subset_of_inside hn List.mem_cons_self
  | _ => trivial

end Typing

/-- The program with its table as it is later. -/
def TypedProgram.under (program : TypedProgram) (h : Hierarchy) : TypedProgram :=
  { program with hierarchy := h }

/-- A program finds the same after its table has grown. -/
theorem TypedProgram.check_under {s : Typing.Site} {p : Program} {program : TypedProgram}
    (hresolve : Typing.resolveProgram s p = .ok program)
    (hbuiltin : ∀ name, Hierarchy.builtin.contains name = true →
      s.hierarchy.contains name = true)
    {h' : Hierarchy} (hgrown : Grown s.hierarchy h') (policy : Policy) :
    ∃ verdict verdict', program.check policy = .ok verdict ∧
      (program.under h').check policy = .ok verdict' ∧ verdict'.findings = verdict.findings := by
  have hthrowable := hbuiltin Hierarchy.throwableName rfl
  obtain ⟨hhierarchy, hlinked⟩ := (Typing.resolveProgram_safe s hthrowable p).of_ok hresolve
  have hjudges := Typing.judgesAll_of_resolveProgram hthrowable hresolve
  have hroots : program.hierarchy.roots = .ok .builtin := by
    rw [hhierarchy]
    exact Hierarchy.roots_eq_of_contains hbuiltin
  have hroots' : h'.roots = .ok .builtin :=
    Hierarchy.roots_eq_of_contains fun name hname => hgrown.contains (hbuiltin name hname)
  obtain ⟨events, hcheck⟩ := check_ok hroots policy program.overrides.overridden hlinked.sound
  obtain ⟨events', hcheck'⟩ := check_ok hroots' policy program.overrides.overridden hlinked.sound
  refine ⟨_, _, hcheck, hcheck', ?_⟩
  rw [← hhierarchy] at hgrown
  exact Node.allFindings_congr
    (r := .ofPolicy program.hierarchy .builtin policy program.overrides.overridden)
    (fun t ht => hgrown.agreeOn ht .builtin policy program.overrides.overridden) hjudges

/-- Take a table that contains the builtin types, after whatever was done with it. Later uses of any
kind, be they successful or not, keep its types with their parents, the order between them and what
the policies say about them. A program that was typed against the table finds the same whenever it
is checked. -/
theorem sharing_is_conservative (before : List Hierarchy.Use) {h : Hierarchy}
    (hreached : Hierarchy.empty.useAll before = h)
    (hbuiltin : ∀ name, Hierarchy.builtin.contains name = true → h.contains name = true) :
    (∀ later,
      (∀ t : ExceptionType, h.contains t.name = true →
        (h.useAll later).contains t.name = true ∧
          (h.useAll later).parentOf? t = h.parentOf? t) ∧
      (∀ t u : ExceptionType, h.contains t.name = true → h.contains u.name = true →
        (h.useAll later).isSubtype t u = h.isSubtype t u) ∧
      ∃ roots, h.roots = .ok roots ∧ (h.useAll later).roots = .ok roots ∧
        ∀ (policy : Policy) (t : ExceptionType), h.contains t.name = true →
          policy.isUnchecked (h.useAll later) roots t = policy.isUnchecked h roots t) ∧
    ∀ file p program h₀, Typing.typeProgram file p h = .ok program h₀ → ∀ later policy,
      ∃ verdict verdict', program.check policy = .ok verdict ∧
        (program.under (h₀.useAll later)).check policy = .ok verdict' ∧
        verdict'.findings = verdict.findings := by
  have hordered : Ordered h.entries := by
    rw [← hreached]
    exact (Hierarchy.grown_useAll .nil before).ordered
  constructor
  · intro later
    have hgrown := Hierarchy.grown_useAll hordered later
    have hroots' : (h.useAll later).roots = .ok .builtin :=
      Hierarchy.roots_eq_of_contains fun name hname => hgrown.contains (hbuiltin name hname)
    refine ⟨fun t ht => ⟨hgrown.contains ht, ?_⟩, fun t u ht _ => hgrown.isSubtype ht u,
      .builtin, Hierarchy.roots_eq_of_contains hbuiltin, hroots', fun policy t ht =>
        hgrown.isUnchecked ht .builtin policy⟩
    exact Hierarchy.parentOf?_of_suffix hgrown.ordered hgrown.suffix
      (Hierarchy.contains_iff.mp ht)
  · intro file p program h₀ htyped later policy
    obtain ⟨hregister, hresolve⟩ := Typing.typeProgram_inv htyped
    have hgrown := Typing.grown_of_registerExceptions hordered hregister
    exact TypedProgram.check_under hresolve
      (fun name hname => hgrown.contains (hbuiltin name hname))
      (Hierarchy.grown_useAll hgrown.ordered later) policy

/-- The check of the program reports throws of exactly these types. -/
def TypedProgram.finds (program : TypedProgram) (policy : Policy) (types : List ExceptionType) :
    Bool :=
  match program.check policy with
  | .ok verdict => verdict.findings.filterMap Finding.unhandledType? = types
  | .error _ => false

/-- The builtin types are registered one by one, and then a type of a library. -/
def libraryUses : List Hierarchy.Use :=
  (Hierarchy.builtinTypes ++ [("Timeout", some "IOException")]).map fun (name, parent) =>
    .register ⟨name, parent.map .raw⟩

/-- A type that is below the one of the library, and a function that declares the former and throws
the latter. -/
def libraryClient : Program :=
  let nowhere : Extent := ⟨⟨1, 1⟩, ⟨1, 1⟩⟩
  ⟨[.exception ⟨"Refused", some "Timeout", nowhere⟩,
    .func ⟨[⟨"throws", ["Refused"], [], nowhere⟩], "connect", [], none,
      .mk [.raise (.new "Timeout" [] nowhere) nowhere] nowhere, nowhere, by decide⟩], none⟩

/-- A name that is taken, a type below one of the client, and a source that registers something
before it fails. -/
def laterUses : List Hierarchy.Use :=
  [.register ⟨"Timeout", some (.raw "RuntimeException")⟩,
    .register ⟨"Rejected", some (.resolved ⟨"Refused"⟩)⟩,
    .source none "exception Broken extends Timeout exception Loop extends Loop"]

theorem sharing_is_conservative_of_laterUses :
    ∃ (h h₀ : Hierarchy) (program : TypedProgram) (verdict : Verdict),
      Hierarchy.empty.useAll libraryUses = h ∧
      Typing.typeProgram none libraryClient h = .ok program h₀ ∧
      (h.useAll laterUses).parentOf? ⟨"Timeout"⟩ = some ⟨"IOException"⟩ ∧
      (program.under (h₀.useAll laterUses)).check .standard = .ok verdict ∧
      verdict.findings.filterMap Finding.unhandledType? = [⟨"Timeout"⟩] := by
  have hentries : (Hierarchy.empty.useAll libraryUses).entries =
      ⟨"Timeout", some "IOException"⟩ :: Hierarchy.builtin.entries := by decide +kernel
  have hbuiltin : ∀ name, Hierarchy.builtin.contains name = true →
      (Hierarchy.empty.useAll libraryUses).contains name = true := by
    intro name hname
    apply Hierarchy.contains_iff.mpr
    rw [hentries]
    exact (Hierarchy.contains_iff.mp hname).of_suffix (List.suffix_cons _ _)
  obtain ⟨hkept, hfindings⟩ := sharing_is_conservative libraryUses rfl hbuiltin
  have hclient : Typing.typedAs (fun program => program.finds .standard [⟨"Timeout"⟩])
      (Typing.typeProgram none libraryClient (Hierarchy.empty.useAll libraryUses)) = true := by
    decide +kernel
  cases htyped : Typing.typeProgram none libraryClient (Hierarchy.empty.useAll libraryUses) with
  | error e h₀ =>
    rw [htyped] at hclient
    cases hclient
  | ok program h₀ =>
    obtain ⟨verdict, verdict', hcheck, hcheck', hsame⟩ :=
      hfindings none libraryClient program h₀ htyped laterUses .standard
    refine ⟨_, h₀, program, verdict', rfl, htyped, ?_, hcheck', ?_⟩
    · rw [((hkept laterUses).1 ⟨"Timeout"⟩ (by decide +kernel)).2]
      decide +kernel
    · rw [htyped] at hclient
      simp only [Typing.typedAs, TypedProgram.finds, hcheck, decide_eq_true_eq] at hclient
      rw [hsame, hclient]

end CheckedExceptions
