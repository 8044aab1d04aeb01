import CheckedExceptions.Proofs.Typing.Alike
import CheckedExceptions.Proofs.Typing.Lineage

/-!
Declarations in another order. Declarations can be added one by one if and only if their symbols
differ, their classes differ, the numbers of their markers can be read, and no class has the name of
a function in front of it; of these conditions only the last one depends on the order. Once all are
added, the names lead to the same classes and functions in every order, and every method overrides
the same methods.
-/
namespace CheckedExceptions.Typing

open CheckedExceptions.Language

/-- A declaration of anything but a class with the name of the function. -/
def Declaration.Avoids (decl : Declaration) (f : Callable) : Prop :=
  ∀ c, decl.class? = some c → c.name ≠ f.symbol.qualifiedName

/-- No class has the name of a function in front of it. -/
def ClassNamesFree (decls : List Declaration) : Prop :=
  decls.Pairwise fun decl later => ∀ f, decl.function? = some f → later.Avoids f

/-- The numbers of the markers can be read. -/
def Readable (decls : List Declaration) : Prop :=
  ∀ decl ∈ decls, ∀ digits ∈ decl.numbers, digits.length ≤ maxDigits

section Lists

variable (decl : Declaration) (decls : List Declaration)

theorem classNames_cons :
    classNames (decl :: decls) = decl.class?.toList.map (·.name) ++ classNames decls := by
  unfold classNames
  cases hclass : decl.class? with
  | none => rw [List.filterMap_cons_none hclass]; rfl
  | some info => rw [List.filterMap_cons_some hclass]; rfl

theorem classNames_append (decls decls' : List Declaration) :
    classNames (decls ++ decls') = classNames decls ++ classNames decls' := by
  rw [classNames, List.filterMap_append, List.map_append]
  rfl

theorem mem_classNames {decls : List Declaration} {name : String} :
    name ∈ classNames decls ↔ ∃ decl ∈ decls, ∃ c, decl.class? = some c ∧ c.name = name := by
  simp only [classNames, List.mem_map, List.mem_filterMap]
  constructor
  · rintro ⟨c, ⟨decl, hdecl, hclass⟩, hname⟩
    exact ⟨decl, hdecl, c, hclass, hname⟩
  · rintro ⟨decl, hdecl, c, hclass, hname⟩
    exact ⟨c, ⟨decl, hdecl, hclass⟩, hname⟩

theorem functionNames_append (decls decls' : List Declaration) :
    functionNames (decls ++ decls') = functionNames decls ++ functionNames decls' := by
  rw [functionNames, List.filterMap_append, List.map_append]
  rfl

theorem symbolNames_flatMap {α : Type} (l : List α) (f : α → List Declaration) :
    symbolNames (l.flatMap f) = l.flatMap fun a => symbolNames (f a) := by
  rw [symbolNames, declaredSymbols, List.flatMap_assoc, List.map_flatMap]
  rfl

end Lists

namespace Declarations

section Adding

variable (s : Site) {d : Declarations}

theorem declare_succeeds {symbol : CheckedExceptions.Symbol} (x : Extent)
    (hfresh : symbol.qualifiedName ∉ d.symbols.map (·.qualifiedName)) :
    d.declare s symbol x = .ok { d with symbols := d.symbols ++ [symbol] } := by
  unfold declare
  rw [if_neg]
  intro htaken
  apply hfresh
  simpa using htaken

theorem class?_eq_none {name : String} (h : name ∉ d.classes.map (·.name)) :
    d.class? name = none := by
  apply List.find?_eq_none.mpr
  intro c hc hname
  exact h (List.mem_map.mpr ⟨c, hc, by simpa using hname⟩)

theorem add_succeeds {decl : Declaration}
    (hsymbols : (d.symbols.map (·.qualifiedName) ++ decl.symbols.map (·.qualifiedName)).Nodup)
    (hclasses : ∀ name ∈ decl.class?.toList.map (·.name), name ∉ d.classes.map (·.name))
    (hfunctions : ∀ f ∈ d.functions, decl.Avoids f)
    (hnumbers : ∀ digits ∈ decl.numbers, digits.length ≤ maxDigits) :
    ∃ d', d.add s decl = .ok d' := by
  have hfresh : ∀ symbol ∈ decl.symbols,
      symbol.qualifiedName ∉ d.symbols.map (·.qualifiedName) := by
    intro symbol hsymbol hmem
    exact (List.nodup_append.mp hsymbols).2.2 _ hmem _ (List.mem_map_of_mem hsymbol) rfl
  have hread := readNumbers_ok hnumbers
  cases decl with
  | function info numbers x =>
    have hdeclare := declare_succeeds s x (hfresh info.symbol (List.mem_singleton_self _))
    exact ⟨_, (bind_of_ok hread _).trans (bind_of_ok hdeclare _)⟩
  | member info numbers x =>
    have hdeclare := declare_succeeds s x (hfresh info.symbol (List.mem_singleton_self _))
    exact ⟨_, (bind_of_ok hread _).trans hdeclare⟩
  | classType info numbers =>
    have hclass := class?_eq_none (hclasses info.name (List.mem_singleton_self _))
    have hfunction : d.function? info.name = none := by
      apply List.find?_eq_none.mpr
      intro f hf hname
      exact hfunctions f hf info rfl (of_decide_eq_true hname).symm
    have hsymbol := declare_succeeds s info.extent (hfresh info.symbol List.mem_cons_self)
    have hctor : info.ctor.qualifiedName ∉
        (d.symbols ++ [info.symbol]).map (·.qualifiedName) := by
      intro hmem
      rw [List.map_append, List.map_singleton] at hmem
      rcases List.mem_append.mp hmem with hmem | hmem
      · exact hfresh info.ctor (List.mem_cons_of_mem _ (List.mem_singleton_self _)) hmem
      · have hown := (List.nodup_append.mp hsymbols).2.1
        exact (List.nodup_cons.mp hown).1 (List.mem_singleton.mpr (List.mem_singleton.mp hmem).symm)
    have hdeclare : ({ d with symbols := d.symbols ++ [info.symbol] } : Declarations).declare s
        info.ctor info.extent = .ok _ := declare_succeeds s info.extent hctor
    simp only [add, hclass, hfunction, Option.isSome_none, Bool.or_self, Bool.false_eq_true,
      ↓reduceIte]
    exact ⟨_, (bind_of_ok hread _).trans ((bind_of_ok hsymbol _).trans (bind_of_ok hdeclare _))⟩

theorem addAll_succeeds {decls : List Declaration}
    (hsymbols : (d.symbols.map (·.qualifiedName) ++ symbolNames decls).Nodup)
    (hclasses : (d.classes.map (·.name) ++ classNames decls).Nodup)
    (hfunctions : ∀ f ∈ d.functions, ∀ decl ∈ decls, decl.Avoids f)
    (hfree : ClassNamesFree decls) (hreadable : Readable decls) :
    ∃ d', d.addAll s decls = .ok d' := by
  induction decls generalizing d with
  | nil => exact ⟨d, rfl⟩
  | cons decl decls ih =>
    rw [symbolNames_cons, ← List.append_assoc] at hsymbols
    rw [classNames_cons, ← List.append_assoc] at hclasses
    obtain ⟨hbehind, hfree⟩ := List.pairwise_cons.mp hfree
    obtain ⟨hnumbers, hreadable⟩ := List.forall_mem_cons.mp hreadable
    have hold := (List.nodup_append.mp hclasses).1
    obtain ⟨d₁, hadd⟩ : ∃ d₁, d.add s decl = .ok d₁ := by
      refine add_succeeds s (List.nodup_append.mp hsymbols).1 ?_ ?_ hnumbers
      · intro name hname hmem
        exact (List.nodup_append.mp hold).2.2 _ hmem _ hname rfl
      · intro f hf
        exact hfunctions f hf decl List.mem_cons_self
    obtain ⟨hsymbols₁, hclasses₁, hfunctions₁⟩ := (add_safe s d decl).of_ok hadd
    obtain ⟨d₂, hrest⟩ : ∃ d₂, d₁.addAll s decls = .ok d₂ := by
      apply ih
      · rwa [hsymbols₁, List.map_append]
      · rwa [hclasses₁, List.map_append]
      · intro f hf later hlater
        rw [hfunctions₁, List.mem_append, Option.mem_toList] at hf
        rcases hf with hf | hf
        · exact hfunctions f hf later (List.mem_cons_of_mem _ hlater)
        · exact hbehind later hlater f hf
      · exact hfree
      · exact hreadable
    rw [addAll, hadd]
    exact ⟨d₂, hrest⟩

theorem avoids_of_add {decl : Declaration} {d' : Declarations} (h : d.add s decl = .ok d')
    {f : Callable} (hf : f ∈ d.functions) : decl.Avoids f := by
  intro c hc hname
  cases decl with
  | function _ _ _ => cases hc
  | member _ _ _ => cases hc
  | classType _ _ =>
    cases hc
    have hsome : (d.function? c.name).isSome = true :=
      List.find?_isSome.mpr ⟨f, hf, decide_eq_true hname.symm⟩
    simp only [add, hsome, Bool.or_true, ↓reduceIte] at h
    cases h

/-- A class can only be added while no function has its name. -/
theorem classNamesFree_of_addAll {decls : List Declaration} {d' : Declarations}
    (h : d.addAll s decls = .ok d') :
    (∀ f ∈ d.functions, ∀ decl ∈ decls, decl.Avoids f) ∧ ClassNamesFree decls := by
  induction decls generalizing d with
  | nil => exact ⟨fun f _ => List.forall_mem_nil _, List.Pairwise.nil⟩
  | cons decl decls ih =>
    obtain ⟨d₁, hadd, hrest⟩ := ok_of_bind h
    obtain ⟨hfunctions, hfree⟩ := ih hrest
    rw [((add_safe s d decl).of_ok hadd).2.2] at hfunctions
    constructor
    · intro f hf
      refine List.forall_mem_cons.mpr ⟨avoids_of_add s hadd hf, ?_⟩
      exact hfunctions f (List.mem_append_left _ hf)
    · refine List.pairwise_cons.mpr ⟨?_, hfree⟩
      intro later hlater f hf
      exact hfunctions f (List.mem_append_right _ (Option.mem_toList.mpr hf)) later hlater

theorem readNumbers_of_add {decl : Declaration} {d' : Declarations} (h : d.add s decl = .ok d') :
    ∀ digits ∈ decl.numbers, digits.length ≤ maxDigits := by
  cases decl with
  | function info numbers x =>
    obtain ⟨_, hread, -⟩ := ok_of_bind h
    exact (readNumbers_safe numbers).of_ok hread
  | member info numbers x =>
    obtain ⟨_, hread, -⟩ := ok_of_bind h
    exact (readNumbers_safe numbers).of_ok hread
  | classType info numbers =>
    simp only [add] at h
    split at h
    · cases h
    · obtain ⟨_, hread, -⟩ := ok_of_bind h
      exact (readNumbers_safe numbers).of_ok hread

theorem readable_of_addAll {decls : List Declaration} {d' : Declarations}
    (h : d.addAll s decls = .ok d') : Readable decls := by
  induction decls generalizing d with
  | nil => exact List.forall_mem_nil _
  | cons decl decls ih =>
    obtain ⟨d₁, hadd, hrest⟩ := ok_of_bind h
    exact List.forall_mem_cons.mpr ⟨readNumbers_of_add s hadd, ih hrest⟩

end Adding

section Programs

variable {s : Site} {p : Program} {d : Declarations}

/-- The declarations of a program are faultless if and only if their names differ, no class has the
name of a function in front of it, and their numbers can be read. -/
theorem ofProgram_ok_iff :
    (∃ d, ofProgram s p = .ok d) ↔ Nameable (declarationsOf s p) ∧
      ClassNamesFree (declarationsOf s p) ∧ Readable (declarationsOf s p) := by
  constructor
  · rintro ⟨d, hd⟩
    exact ⟨nameable_of_ofProgram hd, (classNamesFree_of_addAll s hd).2, readable_of_addAll s hd⟩
  · rintro ⟨hnameable, hfree, hreadable⟩
    exact addAll_succeeds s hnameable.symbols hnameable.classes (List.forall_mem_nil _) hfree
      hreadable

end Programs

end Declarations

section Unplaced

theorem Declaration.symbols_unplaced (decl : Declaration) :
    decl.unplaced.symbols = decl.symbols.map Symbol.unplaced := by
  cases decl <;> rfl

theorem Declaration.class?_unplaced (decl : Declaration) :
    decl.unplaced.class? = decl.class?.map ClassEntry.unplaced := by
  cases decl <;> rfl

theorem Declaration.function?_unplaced (decl : Declaration) :
    decl.unplaced.function? = decl.function?.map Callable.unplaced := by
  cases decl <;> rfl

theorem Declaration.numbers_unplaced (decl : Declaration) :
    decl.unplaced.numbers = decl.numbers := by
  cases decl <;> rfl

/-- Both lists have the same declarations, apart from their order and their places. -/
def SameDeclarations (decls decls' : List Declaration) : Prop :=
  (decls.map Declaration.unplaced).Perm (decls'.map Declaration.unplaced)

namespace SameDeclarations

variable {decls decls' : List Declaration} (h : SameDeclarations decls decls')

include h

theorem symbols : ((declaredSymbols decls).map Symbol.unplaced).Perm
    ((declaredSymbols decls').map Symbol.unplaced) := by
  have hview : ∀ decls : List Declaration, (declaredSymbols decls).map Symbol.unplaced =
      (decls.map Declaration.unplaced).flatMap Declaration.symbols := by
    intro decls
    rw [declaredSymbols, List.map_flatMap, List.flatMap_map]
    simp only [Declaration.symbols_unplaced]
  rw [hview, hview]
  exact h.flatMap_right _

theorem classes : ((decls.filterMap Declaration.class?).map ClassEntry.unplaced).Perm
    ((decls'.filterMap Declaration.class?).map ClassEntry.unplaced) := by
  have hview : ∀ decls : List Declaration,
      (decls.filterMap Declaration.class?).map ClassEntry.unplaced =
        (decls.map Declaration.unplaced).filterMap Declaration.class? := by
    intro decls
    rw [List.map_filterMap, List.filterMap_map]
    simp only [Function.comp_def, Declaration.class?_unplaced]
  rw [hview, hview]
  exact h.filterMap _

theorem functions : ((decls.filterMap Declaration.function?).map Callable.unplaced).Perm
    ((decls'.filterMap Declaration.function?).map Callable.unplaced) := by
  have hview : ∀ decls : List Declaration,
      (decls.filterMap Declaration.function?).map Callable.unplaced =
        (decls.map Declaration.unplaced).filterMap Declaration.function? := by
    intro decls
    rw [List.map_filterMap, List.filterMap_map]
    simp only [Function.comp_def, Declaration.function?_unplaced]
  rw [hview, hview]
  exact h.filterMap _

theorem symbolNames : (symbolNames decls).Perm (symbolNames decls') := by
  have hperm := h.symbols.map Symbol.qualifiedName
  rwa [List.map_map, List.map_map] at hperm

theorem classNames : (classNames decls).Perm (classNames decls') := by
  have hperm := h.classes.map ClassEntry.name
  rwa [List.map_map, List.map_map] at hperm

theorem nameable (hdecls : Nameable decls) : Nameable decls' :=
  ⟨h.symbolNames.nodup_iff.mp hdecls.symbols, h.classNames.nodup_iff.mp hdecls.classes⟩

theorem readable (hdecls : Readable decls) : Readable decls' := by
  intro decl' hdecl'
  obtain ⟨decl, hdecl, hsame⟩ := List.mem_map.mp (h.mem_iff.mpr (List.mem_map_of_mem hdecl'))
  rw [← Declaration.numbers_unplaced, ← hsame, Declaration.numbers_unplaced]
  exact hdecls decl hdecl

end SameDeclarations

end Unplaced

namespace Declarations

variable {s s' : Site} {p p' : Program} {d d' : Declarations}

theorem classes_perm (hd : ofProgram s p = .ok d) (hd' : ofProgram s' p' = .ok d')
    (h : SameDeclarations (declarationsOf s p) (declarationsOf s' p')) :
    (d.classes.map ClassEntry.unplaced).Perm (d'.classes.map ClassEntry.unplaced) := by
  rw [(ofProgram_ok hd).2.1, (ofProgram_ok hd').2.1]
  exact h.classes

/-- Names lead to the same classes and functions, whatever the order of the declarations. -/
theorem agrees_of_sameDeclarations (hd : ofProgram s p = .ok d) (hd' : ofProgram s' p' = .ok d')
    (h : SameDeclarations (declarationsOf s p) (declarationsOf s' p')) : d.Agrees d' := by
  obtain ⟨-, -, hfunctions⟩ := ofProgram_ok hd
  obtain ⟨-, -, hfunctions'⟩ := ofProgram_ok hd'
  have hpermC := classes_perm hd hd' h
  have hpermF : (d.functions.map Callable.unplaced).Perm (d'.functions.map Callable.unplaced) := by
    rw [hfunctions, hfunctions']
    exact h.functions
  have hnodupC : ((d.classes.map ClassEntry.unplaced).map ClassEntry.name).Nodup := by
    rw [List.map_map]
    exact (distinct_of_ofProgram hd).classes
  have hnodupF : ((d.functions.map Callable.unplaced).map (·.symbol.qualifiedName)).Nodup := by
    rw [List.map_map]
    exact nodup_functions hd
  refine ⟨fun name => ?_, fun name => ?_, ?_⟩
  · have hview := find?_key_map ClassEntry.name ClassEntry.unplaced fun _ => rfl
    exact (hview d.classes name).trans
      ((find?_key_perm ClassEntry.name hpermC hnodupC name).trans (hview d'.classes name).symm)
  · have hview := find?_key_map (fun f : Callable => f.symbol.qualifiedName) Callable.unplaced
      fun _ => rfl
    exact (hview d.functions name).trans
      ((find?_key_perm _ hpermF hnodupF name).trans (hview d'.functions name).symm)
  · have hlength := hpermC.length_eq
    rwa [List.length_map, List.length_map] at hlength

section Overriding

variable (hagrees : d.Agrees d')
  (hclasses : (d.classes.map ClassEntry.unplaced).Perm (d'.classes.map ClassEntry.unplaced))

include hagrees hclasses

/-- The ancestors of all classes are found in one order of the declarations if in the other. -/
theorem overrides_succeeds {o : Overrides} (ho : d.overrides s = .ok o) :
    ∃ o', d'.overrides s' = .ok o' := by
  have hancestors := (overrides_ok ho).1
  apply overrides_of_ancestors
  intro c' hc'
  obtain ⟨c, hc, hview⟩ :=
    List.mem_map.mp (hclasses.mem_iff.mpr (List.mem_map_of_mem hc'))
  have hsame := hagrees.ancestors s s' hview
  rw [hancestors c hc] at hsame
  cases hfound : d'.ancestors s' c' with
  | error e =>
    rw [hfound] at hsame
    cases hsame
  | ok found => exact ⟨found, rfl⟩

omit hagrees in
/-- Every entry of a method has its counterpart. -/
theorem exists_methodEntry {e : ClassEntry × String × Callable} (he : e ∈ d.methodEntries) :
    ∃ e' ∈ d'.methodEntries, e.1.unplaced = e'.1.unplaced ∧ e.2.1 = e'.2.1 ∧
      e.2.2.unplaced = e'.2.2.unplaced := by
  obtain ⟨c, name, m⟩ := e
  obtain ⟨hc, hm⟩ := mem_methodEntries.mp he
  obtain ⟨c', hc', hview⟩ := List.mem_map.mp (hclasses.mem_iff.mp (List.mem_map_of_mem hc))
  have hmethods : c.methods.map (fun m => (m.1, m.2.unplaced)) =
      c'.methods.map fun m => (m.1, m.2.unplaced) := congrArg ClassEntry.methods hview.symm
  have hmem : (name, m.unplaced) ∈ c'.methods.map fun m => (m.1, m.2.unplaced) := by
    rw [← hmethods]
    exact List.mem_map.mpr ⟨(name, m), hm, rfl⟩
  obtain ⟨⟨name', m'⟩, hm', heq⟩ := List.mem_map.mp hmem
  obtain ⟨hname, hcallable⟩ := Prod.mk.inj heq
  exact ⟨(c', name', m'), mem_methodEntries.mpr ⟨hc', hm'⟩, hview.symm, hname.symm,
    hcallable.symm⟩

omit hclasses in
theorem ancestorsOf_congr {c c' : ClassEntry} (hc : c.unplaced = c'.unplaced) :
    (d.ancestorsOf s c).map ClassEntry.unplaced =
      (d'.ancestorsOf s' c').map ClassEntry.unplaced := by
  have hsame := hagrees.ancestors s s' hc
  unfold ancestorsOf
  rcases map_eq_map_cases hsame with ⟨hnone, hnone'⟩ | ⟨found, found', hfound, hfound', hview⟩
  · rw [hnone, hnone']
  · rw [hfound, hfound']
    exact hview

omit hagrees hclasses in
/-- The methods of a name in some classes, without places. -/
theorem methods_unplaced (l : List ClassEntry) (name : String) :
    ((l.filterMap (·.method? name)).map (·.symbol)).map Symbol.unplaced =
      ((l.map ClassEntry.unplaced).filterMap (·.method? name)).map (·.symbol) := by
  have hsymbol : Symbol.unplaced ∘ Callable.symbol = Callable.symbol ∘ Callable.unplaced := rfl
  rw [List.filterMap_map, List.map_map, hsymbol, ← List.map_map, List.map_filterMap]
  simp only [Function.comp_def, ClassEntry.method?_unplaced]

/-- Every symbol overrides the same, whatever the order of the declarations. -/
theorem overridden_congr (hd : d.Unambiguous) (hd' : d'.Unambiguous) {o o' : Overrides}
    (ho : d.overrides s = .ok o) (ho' : d'.overrides s' = .ok o') (x : CheckedExceptions.Symbol) :
    (o.overridden x).map Symbol.unplaced = (o'.overridden x).map Symbol.unplaced := by
  have hidentity : ∀ {f f' : Callable}, f.unplaced = f'.unplaced →
      f.symbol.identity = f'.symbol.identity := by
    intro f f' hf
    rw [← Symbol.identity_unplaced, (Callable.eq_of_unplaced hf).1, Symbol.identity_unplaced]
  by_cases hx : ∃ e ∈ d.methodEntries, e.2.2.symbol.identity = x.identity
  · obtain ⟨e, he, hex⟩ := hx
    obtain ⟨e', he', hclass, hname, hcallable⟩ := exists_methodEntry hclasses he
    have hex' : e'.2.2.symbol.identity = x.identity := (hidentity hcallable).symm.trans hex
    rw [← Overrides.overridden_congr hex, ← Overrides.overridden_congr hex',
      overridden_of_entry hd ho he, overridden_of_entry hd' ho' he', methods_unplaced,
      methods_unplaced, ancestorsOf_congr hagrees hclass, hname]
  · have hnone' : ∀ e' ∈ d'.methodEntries, e'.2.2.symbol.identity ≠ x.identity := by
      intro e' he' hex'
      obtain ⟨e, he, -, -, hcallable⟩ := exists_methodEntry hclasses.symm he'
      exact hx ⟨e, he, (hidentity hcallable).symm.trans hex'⟩
    have hnone : ∀ e ∈ d.methodEntries, e.2.2.symbol.identity ≠ x.identity :=
      fun e he hex => hx ⟨e, he, hex⟩
    rw [overridden_eq_nil ho hnone, overridden_eq_nil ho' hnone']

end Overriding

end Declarations

end CheckedExceptions.Typing
