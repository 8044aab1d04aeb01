import CheckedExceptions.Proofs.Typing.Definitions
import CheckedExceptions.Proofs.Typing.Lineage
import CheckedExceptions.Proofs.Typing.Loading

/-!
Calls through an ancestor. An override is only compared with all methods it overrides taken
together, and what counts for a method includes what it inherits. Where every class has at most one
parent this is nevertheless enough for each single ancestor: whatever a method of a class may throw
is covered by what is known to a caller that sees the class as that ancestor. Along a circle of
parents the argument stops where it comes to the ancestor, and never has to go round.
-/
namespace CheckedExceptions

open Relation (TransGen ReflTransGen)
open CheckedExceptions.Hierarchy (Ordered)

namespace Declared

variable {overridden : Symbol → List Symbol} {isSubtype : ExceptionType → ExceptionType → Bool}
  {m : Symbol} {span : Span} {t : ExceptionType}

/-- A definition without findings can be read together with all that it overrides. If it overrides
anything, what it declares itself is below what the overridden definitions declare. -/
theorem read_of_definitionFindings (h : definitionFindings overridden isSubtype m span = []) :
    ∃ own inherited, read [m] = .ok own ∧ read (overridden m) = .ok inherited ∧
      (overridden m ≠ [] → ∀ t ∈ own, ∃ u ∈ inherited, isSubtype t u = true) := by
  unfold definitionFindings declarationOf at h
  cases hown : declaration [m] span m.name with
  | error finding =>
    rw [hown] at h
    cases h
  | ok own =>
    cases hinherited : declaration (overridden m) span m.name with
    | error finding =>
      simp only [hown, hinherited] at h
      cases h
    | ok inherited =>
      simp only [hown, hinherited] at h
      refine ⟨own, inherited, read_of_declaration hown, read_of_declaration hinherited, ?_⟩
      intro hany t ht
      have hsome : (!(overridden m).isEmpty) = true := by simpa using hany
      rw [overrideFindings, if_pos hsome, List.map_eq_nil_iff, typesBeyond,
        List.filter_eq_nil_iff] at h
      simpa using h t ht

/-- A definition declares, and an invocation may throw, what the symbol or an overridden one
declares, if all of it can be read. -/
theorem mem_declarationOf {own inherited : List ExceptionType} (hown : read [m] = .ok own)
    (hinherited : read (overridden m) = .ok inherited) :
    t ∈ own ++ inherited ↔ m.Declares t ∨ ∃ b ∈ overridden m, b.Declares t := by
  rw [List.mem_append, mem_read hown, mem_read hinherited]
  simp

theorem declarationOf_ok {own inherited : List ExceptionType} (hown : read [m] = .ok own)
    (hinherited : read (overridden m) = .ok inherited) (span : Span) (owner : String) :
    declarationOf overridden m span owner = .ok (own, inherited) := by
  simp only [declarationOf, declaration_eq_ok hown, declaration_eq_ok hinherited]

end Declared

namespace Typing.Declarations

variable {s : Site} {d : Declarations} {o : Overrides} {c b : ClassEntry} {name : String}
  {m : Callable} {t : ExceptionType}

/-- The method of that name in the class, or in one above it, declares the type. -/
def DeclaresAbove (d : Declarations) (name : String) (c : ClassEntry) (t : ExceptionType) : Prop :=
  ∃ b n, ReflTransGen d.Extends c b ∧ b.method? name = some n ∧ n.symbol.Declares t

/-- What counts for a method is what it declares itself and what it overrides. -/
theorem declaresAbove_iff (hd : d.Unambiguous) (ho : d.overrides s = .ok o) (hc : c ∈ d.classes)
    (hm : c.method? name = some m) :
    m.symbol.Declares t ∨ (∃ x ∈ o.overridden m.symbol, x.Declares t) ↔
      d.DeclaresAbove name c t := by
  constructor
  · rintro (hown | ⟨x, hx, hdeclares⟩)
    · exact ⟨c, m, .refl, hm, hown⟩
    · obtain ⟨b, n, -, hpath, hn, rfl⟩ := (mem_overridden hd ho hc hm).mp hx
      exact ⟨b, n, hpath.to_reflTransGen, hn, hdeclares⟩
  · rintro ⟨b, n, hpath, hn, hdeclares⟩
    by_cases hbc : b = c
    · subst hbc
      rw [hm] at hn
      cases hn
      exact Or.inl hdeclares
    · have hproper := (Relation.reflTransGen_iff_eq_or_transGen.mp hpath).resolve_left hbc
      exact Or.inr ⟨n.symbol, (mem_overridden hd ho hc hm).mpr ⟨b, n, hbc, hproper, hn, rfl⟩,
        hdeclares⟩

/-- A method at which nothing is found can be read at every place, with the types that are declared
from its class upwards. -/
theorem declarationOf_declaresAbove (hd : d.Unambiguous) (ho : d.overrides s = .ok o)
    (hc : c ∈ d.classes) (hm : c.method? name = some m)
    {isSubtype : ExceptionType → ExceptionType → Bool} {place : Span}
    (hfindings : Declared.definitionFindings o.overridden isSubtype m.symbol place = [])
    (span : Span) (owner : String) :
    ∃ own inherited,
      Declared.declarationOf o.overridden m.symbol span owner = .ok (own, inherited) ∧
        ∀ t, t ∈ own ++ inherited ↔ d.DeclaresAbove name c t := by
  obtain ⟨own, inherited, hown, hinherited, -⟩ := Declared.read_of_definitionFindings hfindings
  refine ⟨own, inherited, Declared.declarationOf_ok hown hinherited span owner, fun t => ?_⟩
  rw [Declared.mem_declarationOf hown hinherited]
  exact declaresAbove_iff hd ho hc hm

/-- Where a method overrides another one, all that it declares is below something declared for a
method it overrides. -/
def Narrowing (d : Declarations) (h : Hierarchy) (name : String) : Prop :=
  ∀ c ∈ d.classes, ∀ m, c.method? name = some m →
    (∃ b n, b ≠ c ∧ TransGen d.Extends c b ∧ b.method? name = some n) →
    ∀ t, m.symbol.Declares t → ∃ b n u, TransGen d.Extends c b ∧ b.method? name = some n ∧
      n.symbol.Declares u ∧ h.isSubtype t u = true

theorem extends_unique (hsingle : ∀ c ∈ d.classes, c.parents.length ≤ 1) (hc : c ∈ d.classes)
    {a : ClassEntry} (ha : d.Extends c a) (hb : d.Extends c b) : a = b := by
  obtain ⟨p, hp, hpa⟩ := ha
  obtain ⟨q, hq, hqb⟩ := hb
  have hlength := hsingle c hc
  have hpq : p = q := by
    cases hparents : c.parents with
    | nil => simp [hparents] at hp
    | cons r rest =>
      cases rest with
      | nil =>
        rw [hparents, List.mem_singleton] at hp hq
        rw [hp, hq]
      | cons _ _ => simp [hparents] at hlength
  rw [hpq, hqb] at hpa
  exact (Option.some.inj hpa).symm

/-- Up a path of single parents to a class with the method, everything stays covered. -/
theorem declaresAbove_covered {h : Hierarchy} (hordered : Ordered h.entries)
    (hsingle : ∀ c ∈ d.classes, c.parents.length ≤ 1) (hnarrowing : d.Narrowing h name)
    (hc : c ∈ d.classes) (hpath : ReflTransGen d.Extends c b) {n : Callable}
    (hn : b.method? name = some n) (ht : d.DeclaresAbove name c t) :
    ∃ u, d.DeclaresAbove name b u ∧ h.isSubtype t u = true := by
  -- The induction goes down from the ancestor: what is above a class is the class itself or above
  -- its only parent.
  induction hpath using Relation.ReflTransGen.head_induction_on generalizing t with
  | refl => exact ⟨t, ht, Hierarchy.isSubtype_refl h t⟩
  | @head c p hcp hpb ih =>
    have hparent : ∀ {a : ClassEntry}, TransGen d.Extends c a → ReflTransGen d.Extends p a := by
      intro a ha
      obtain ⟨p', hcp', hpa⟩ := TransGen.head'_iff.mp ha
      rwa [extends_unique hsingle hc hcp hcp']
    obtain ⟨a, k, hpath, hk, hdeclares⟩ := ht
    rcases Relation.ReflTransGen.cases_head_iff.mp hpath with rfl | ⟨p', hcp', hpa⟩
    · by_cases hcb : b = c
      · subst hcb
        exact ⟨t, ⟨b, k, .refl, hk, hdeclares⟩, Hierarchy.isSubtype_refl h t⟩
      · have hproper : TransGen d.Extends c b := .head' hcp hpb
        obtain ⟨a', k', u, hproper', hk', hdeclares', htu⟩ :=
          hnarrowing c hc k hk ⟨b, n, hcb, hproper, hn⟩ t hdeclares
        obtain ⟨v, hv, huv⟩ := ih hcp.mem_classes ⟨a', k', hparent hproper', hk', hdeclares'⟩
        exact ⟨v, hv, Hierarchy.isSubtype_trans hordered htu huv⟩
    · exact ih hcp.mem_classes ⟨a, k, hparent (.head' hcp' hpa), hk, hdeclares⟩

/-- Without findings at the methods of a name, their declarations are narrowing. -/
theorem narrowing_of_definitionFindings (hd : d.Unambiguous) (ho : d.overrides s = .ok o)
    {h : Hierarchy}
    (haccepted : ∀ c ∈ d.classes, ∀ m, c.method? name = some m →
      ∃ span, Declared.definitionFindings o.overridden h.isSubtype m.symbol span = []) :
    d.Narrowing h name := by
  rintro c hc m hm ⟨b, n, hne, hpath, hn⟩ t ht
  obtain ⟨span, hfindings⟩ := haccepted c hc m hm
  obtain ⟨own, inherited, hown, hinherited, hbelow⟩ :=
    Declared.read_of_definitionFindings hfindings
  have hany : n.symbol ∈ o.overridden m.symbol :=
    (mem_overridden hd ho hc hm).mpr ⟨b, n, hne, hpath, hn, rfl⟩
  have ht' : t ∈ own := (Declared.mem_read hown).mpr ⟨_, List.mem_singleton_self _, ht⟩
  obtain ⟨u, hu, htu⟩ := hbelow (List.ne_nil_of_mem hany) t ht'
  obtain ⟨x, hx, hdeclares⟩ := (Declared.mem_read hinherited).mp hu
  obtain ⟨b', n', -, hpath', hn', rfl⟩ := (mem_overridden hd ho hc hm).mp hx
  exact ⟨b', n', u, hpath', hn', hdeclares, htu⟩

end Typing.Declarations

/-- The table of a typed program is ordered, and its declarations and overrides belong together. -/
theorem Typing.typeProgram_ok {file : Option String} {p : Language.Program} {h h' : Hierarchy}
    {program : TypedProgram} (hordered : Ordered h.entries)
    (htyped : typeProgram file p h = .ok program h') :
    Ordered program.hierarchy.entries ∧
      ∃ s, Declarations.ofProgram s p = .ok program.declarations ∧
        program.declarations.overrides s = .ok program.overrides := by
  obtain ⟨hregister, hresolve⟩ := typeProgram_inv htyped
  obtain ⟨hdeclarations, hoverrides, -, hhierarchy⟩ := resolveProgram_ok hresolve
  refine ⟨?_, _, hdeclarations, hoverrides⟩
  rw [hhierarchy]
  exact (grown_of_registerExceptions hordered hregister).ordered

/-- Nothing is found at the declarations of the methods with that name: all of them can be read, and
none declares a type beyond those that it overrides. -/
def TypedProgram.Accepts (program : TypedProgram) (name : String) : Prop :=
  ∀ c ∈ program.declarations.classes, ∀ m, c.method? name = some m → ∃ span,
    Declared.definitionFindings program.overrides.overridden program.hierarchy.isSubtype m.symbol
      span = []

/-- In a program where every class has at most one parent, and whose methods of some name are all
accepted, each type that counts as declared by such a method is a subtype of one that a call of the
method through any ancestor of its class may throw. -/
theorem overrides_covered_by_ancestors {types : List (String × Option String)} {h h' : Hierarchy}
    (hregistered : Hierarchy.empty.registerAll types = .ok h) {file : Option String}
    {p : Language.Program} {program : TypedProgram}
    (htyped : Typing.typeProgram file p h = .ok program h')
    (hsingle : ∀ c ∈ program.declarations.classes, c.parents.length ≤ 1) {name : String}
    (haccepted : program.Accepts name) {c b : Typing.ClassEntry}
    (hc : c ∈ program.declarations.classes)
    (hancestor : TransGen program.declarations.Extends c b) {m n : Typing.Callable}
    (hm : c.method? name = some m) (hn : b.method? name = some n) (place place' : Span) :
    ∀ t ∈ Declared.definitionTypes program.overrides.overridden m.symbol place,
      ∃ u ∈ Declared.thrownBy program.overrides.overridden n.symbol place',
        program.hierarchy.isSubtype t u = true := by
  have hregister := Hierarchy.grown_registerAll .nil hregistered
  obtain ⟨hordered, s, hdeclarations, hoverrides⟩ := Typing.typeProgram_ok hregister.ordered htyped
  have hd := Typing.Declarations.ofProgram_unambiguous hdeclarations
  have hb := Typing.Declarations.mem_classes_of_transGen hancestor
  have hnarrowing := Typing.Declarations.narrowing_of_definitionFindings hd hoverrides haccepted
  obtain ⟨placeM, hfindings⟩ := haccepted c hc m hm
  obtain ⟨placeN, hfindings'⟩ := haccepted b hb n hn
  obtain ⟨own, inherited, hread, hmem⟩ := Typing.Declarations.declarationOf_declaresAbove hd
    hoverrides hc hm hfindings place m.symbol.name
  obtain ⟨own', inherited', hread', hmem'⟩ := Typing.Declarations.declarationOf_declaresAbove hd
    hoverrides hb hn hfindings' place' n.symbol.qualifiedName
  simp only [Declared.definitionTypes, Declared.thrownBy, hread, hread']
  intro t ht
  obtain ⟨u, hu, htu⟩ := Typing.Declarations.declaresAbove_covered hordered hsingle hnarrowing hc
    hancestor.to_reflTransGen hn ((hmem t).mp ht)
  exact ⟨u, (hmem' u).mpr hu, htu⟩

/-- A class with a parent and a method `m` that declares some types. -/
def classThrowing (name parent : String) (types : List String) : Language.Item :=
  let nowhere : Language.Extent := ⟨⟨1, 1⟩, ⟨1, 1⟩⟩
  let markers := types.map fun t => ⟨"throws", [t], [], nowhere⟩
  .classDecl (.mk [] name [] [] [parent]
    [.func ⟨markers, "m", [], none, .mk [] nowhere, nowhere, by decide⟩] nowhere)

/-- Two classes that extend each other, and a third one below them. -/
def circle : Language.Program :=
  ⟨[classThrowing "A" "B" ["Exception"], classThrowing "B" "A" ["IOException", "Exception"],
    classThrowing "C" "A" ["FileNotFoundException"]], none⟩

/-- Nothing is found at the methods `m` of the program, no class has two parents, and the classes of
the circle extend each other as they should and have methods that declare something. -/
def TypedProgram.isCircle (program : TypedProgram) : Bool :=
  program.declarations.classes.all (fun c => c.parents.length ≤ 1 &&
    (c.method? "m").all fun m => Declared.definitionFindings program.overrides.overridden
      program.hierarchy.isSubtype m.symbol {} = []) &&
  [("A", "B"), ("B", "A"), ("C", "A")].all fun (name, parent) =>
    (program.declarations.class? name).any fun c => c.parents = [parent] &&
      (c.method? "m").any fun m =>
        Declared.definitionTypes program.overrides.overridden m.symbol {} ≠ []

/-- The program is typed, and the outcome has the property. -/
def Typing.typedAs (property : TypedProgram → Bool) :
    EStateM.Result Error Hierarchy TypedProgram → Bool
  | .ok program _ => property program
  | .error _ _ => false

theorem overrides_covered_by_ancestors_in_circle :
    ∃ (program : TypedProgram) (h' : Hierarchy) (b c : Typing.ClassEntry) (m n : Typing.Callable),
      Typing.typeProgram none circle .builtin = .ok program h' ∧ program.Accepts "m" ∧
        program.declarations.class? "B" = some b ∧ program.declarations.class? "C" = some c ∧
        TransGen program.declarations.Extends b b ∧ TransGen program.declarations.Extends c b ∧
        c.method? "m" = some m ∧ b.method? "m" = some n ∧
        Declared.definitionTypes program.overrides.overridden m.symbol {} ≠ [] ∧
        ∀ t ∈ Declared.definitionTypes program.overrides.overridden m.symbol {},
          ∃ u ∈ Declared.thrownBy program.overrides.overridden n.symbol {},
            program.hierarchy.isSubtype t u = true := by
  have hcircle : Typing.typedAs TypedProgram.isCircle
      (Typing.typeProgram none circle .builtin) = true := by decide +kernel
  cases hrun : Typing.typeProgram none circle .builtin with
  | error e h' =>
    rw [hrun] at hcircle
    cases hcircle
  | ok program h' =>
    simp only [hrun, Typing.typedAs, TypedProgram.isCircle, Bool.and_eq_true, List.all_eq_true,
      decide_eq_true_eq, Option.all_eq_true, List.forall_mem_cons, Option.any_eq_true] at hcircle
    obtain ⟨hall, ⟨a, ha, hap, -⟩, ⟨b, hb, hbp, n, hn, -⟩, ⟨c, hc, hcp, m, hm, htypes⟩, -⟩ :=
      hcircle
    have hab : program.declarations.Extends a b := ⟨"B", by rw [hap]; exact .head _, hb⟩
    have hba : program.declarations.Extends b a := ⟨"A", by rw [hbp]; exact .head _, ha⟩
    have hca : program.declarations.Extends c a := ⟨"A", by rw [hcp]; exact .head _, ha⟩
    have haccepted : program.Accepts "m" := fun x hx k hk => ⟨{}, (hall x hx).2 k hk⟩
    have hcb : TransGen program.declarations.Extends c b := .tail (.single hca) hab
    refine ⟨program, h', b, c, m, n, rfl, haccepted, hb, hc, .tail (.single hba) hab, hcb, hm, hn,
      htypes, ?_⟩
    exact overrides_covered_by_ancestors Hierarchy.registerAll_builtinTypes hrun
      (fun x hx => (hall x hx).1) haccepted (Typing.Declarations.mem_classes_of_class? hc) hcb hm hn
      {} {}

end CheckedExceptions
