import CheckedExceptions.Proofs.Typing.Distinct
import CheckedExceptions.Typing.Resolution
import Mathlib.Data.List.Flatten

/-!
Looking up what was declared. Functions and classes are found by name, a method by its index in the
class and then by the name of its symbol, a constructor by its index and then by its symbol. All of
these keys are unique in the tables of a program that declares nothing twice, so every lookup leads
to the entry of the very declaration that it stands for.
-/
namespace CheckedExceptions.Typing

open CheckedExceptions.Language

/-- The name of a method is the last part of its qualified name, since it has no dots. -/
theorem Site.name_function (s : Site) (owner : String) (f : FuncDecl) :
    (s.function (some owner) f).symbol.name = f.name := by
  have hqualified : (s.function (some owner) f).symbol.qualifiedName.toList =
      owner.toList ++ '.' :: f.name.toList := by
    simp [Site.function, toString]
  have hfree : ∀ ch ∈ f.name.toList.reverse, (decide (ch ≠ '.')) = true := by
    intro ch hch
    refine decide_eq_true ?_
    rintro rfl
    exact f.undotted (List.mem_reverse.mp hch)
  rw [Symbol.name, hqualified, List.reverse_append, List.reverse_cons, List.append_assoc,
    List.takeWhile_append_of_pos hfree]
  simp

section Members

variable (s : Site) (owner : String)

/-- A member stands under its own index. -/
theorem le_of_mem_memberSymbolsOf {index ctors : Nat} {members : List Member}
    {entry : Nat × CheckedExceptions.Symbol}
    (h : entry ∈ memberSymbolsOf s owner index ctors members) : index ≤ entry.1 := by
  induction members generalizing index ctors with
  | nil => cases h
  | cons member members ih =>
    cases member with
    | func f =>
      rcases List.mem_cons.mp h with rfl | h
      · exact Nat.le_refl _
      · exact Nat.le_of_succ_le (ih h)
    | ctor c =>
      rcases List.mem_cons.mp h with rfl | h
      · exact Nat.le_refl _
      · exact Nat.le_of_succ_le (ih h)
    | classDecl c => exact Nat.le_of_succ_le (ih h)
    | stmt _ => exact Nat.le_of_succ_le (ih h)

theorem nodup_memberSymbolsOf (index ctors : Nat) (members : List Member) :
    ((memberSymbolsOf s owner index ctors members).map (·.1)).Nodup := by
  have hfresh : ∀ (index ctors : Nat) (members : List Member),
      index ∉ (memberSymbolsOf s owner (index + 1) ctors members).map (·.1) := by
    intro index ctors members hmem
    obtain ⟨entry, hentry, hkey⟩ := List.mem_map.mp hmem
    have hle := le_of_mem_memberSymbolsOf s owner hentry
    omega
  induction members generalizing index ctors with
  | nil => exact List.nodup_nil
  | cons member members ih =>
    cases member with
    | func f => exact List.nodup_cons.mpr ⟨hfresh _ _ _, ih _ _⟩
    | ctor c => exact List.nodup_cons.mpr ⟨hfresh _ _ _, ih _ _⟩
    | classDecl c => exact ih _ _
    | stmt _ => exact ih _ _

end Members

section Keys

variable {s : Site} {owner : String} {index : Nat} {members : List Member}
  (hdistinct : (symbolNames (memberDeclarations s owner index members)).Nodup)

include hdistinct

theorem nodup_methodsOf : ((methodsOf s owner members).map (·.1)).Nodup := by
  have hnames :=
    ((methodsOf_sublist s owner index members).map Symbol.qualifiedName).nodup hdistinct
  have hkeys : ((methodsOf s owner members).map (·.2.symbol)).map Symbol.qualifiedName =
      ((methodsOf s owner members).map (·.1)).map fun name => s!"{owner}.{name}" := by
    rw [List.map_map, List.map_map]
    refine List.map_congr_left fun m hm => ?_
    obtain ⟨member, -, hmember⟩ := List.mem_filterMap.mp hm
    cases member with
    | func f =>
      cases hmember
      rfl
    | ctor _ => cases hmember
    | classDecl _ => cases hmember
    | stmt _ => cases hmember
  rw [hkeys] at hnames
  exact hnames.of_map

theorem nodup_otherCtorsOf :
    ((otherCtorsOf s owner index members).map (·.symbol.identity)).Nodup := by
  have hnames :=
    ((otherCtorsOf_sublist s owner index members).map Symbol.qualifiedName).nodup hdistinct
  refine List.Nodup.of_map (·.qualifiedName) ?_
  rwa [List.map_map] at hnames ⊢

end Keys

/-- The keys lead to the entries: the index of a member to its symbol, and this to the method or to
the constructor. -/
structure ClassEntry.Keyed (info : ClassEntry) : Prop where
  members : (info.memberSymbols.map (·.1)).Nodup
  methods : (info.methods.map (·.1)).Nodup
  otherCtors : (info.otherCtors.map (·.symbol.identity)).Nodup

theorem classEntry_keyed {s : Site} {outer : Option String} {k : ClassDecl}
    (hdistinct : (symbolNames (classDeclarations s outer k)).Nodup) :
    (classEntry s outer k).Keyed := by
  obtain ⟨markers, name, params, ctorMarkers, parents, members, extent⟩ := k
  rw [classDeclarations, symbolNames_cons] at hdistinct
  have hmembers := (List.nodup_append.mp hdistinct).2.1
  exact ⟨nodup_memberSymbolsOf s _ 0 0 members, nodup_methodsOf hmembers,
    nodup_otherCtorsOf hmembers⟩

theorem ClassEntry.Keyed.methodAt {info : ClassEntry} (h : info.Keyed) {index : Nat} {m : Callable}
    (hsymbol : (index, m.symbol) ∈ info.memberSymbols) (hm : (m.symbol.name, m) ∈ info.methods) :
    info.methodAt index = .ok m := by
  have hlookup : info.memberSymbols.lookup index = some m.symbol :=
    lookup_of_mem h.members hsymbol
  have hmethod : info.method? m.symbol.name = some m := lookup_of_mem h.methods hm
  rw [ClassEntry.methodAt, ClassEntry.memberSymbol, hlookup]
  change found _ (info.method? m.symbol.name) = _
  rw [hmethod]
  rfl

theorem ClassEntry.Keyed.otherCtorAt {info : ClassEntry} (h : info.Keyed) {index : Nat}
    {m : Callable} (hsymbol : (index, m.symbol) ∈ info.memberSymbols) (hm : m ∈ info.otherCtors) :
    info.otherCtorAt index = .ok m := by
  have hlookup : info.memberSymbols.lookup index = some m.symbol :=
    lookup_of_mem h.members hsymbol
  have hctor : info.otherCtor? m.symbol = some m :=
    (find?_key_eq_some _ h.otherCtors).mpr ⟨hm, rfl⟩
  rw [ClassEntry.otherCtorAt, ClassEntry.memberSymbol, hlookup]
  change found _ (info.otherCtor? m.symbol) = _
  rw [hctor]
  rfl

namespace Context

variable (c : Context)

mutual

/-- The class is found under its name, with its own entry, and so are all its members and the
classes among them. -/
def FindsClass (outer : Option String) : ClassDecl → Prop
  | .mk markers name params ctorMarkers parents members x =>
    let info := classEntry c.toSite outer (.mk markers name params ctorMarkers parents members x)
    c.declarations.class? name = some info ∧
      FindsMembers info (qualifiedName outer name) 0 0 members

/-- The members from an index on, after some constructors, are found in the entry of the class. -/
def FindsMembers (info : ClassEntry) (owner : String) : Nat → Nat → List Member → Prop
  | _, _, [] => True
  | index, ctors, .func f :: ms =>
    info.methodAt index = .ok (c.function (some owner) f) ∧
      FindsMembers info owner (index + 1) ctors ms
  | index, ctors, .ctor k :: ms =>
    info.otherCtorAt index = .ok (c.otherCtor owner (ctors + 1) k) ∧
      FindsMembers info owner (index + 1) (ctors + 1) ms
  | index, ctors, .classDecl k :: ms =>
    FindsClass (some owner) k ∧ FindsMembers info owner (index + 1) ctors ms
  | index, ctors, .stmt _ :: ms => FindsMembers info owner (index + 1) ctors ms

end

/-- A function or a class of the program is found under its name, with its own entry. -/
def FindsItem : Item → Prop
  | .func f => c.declarations.function? f.name = some (c.function none f)
  | .classDecl k => c.FindsClass none k
  | .exception _ | .stmt _ => True

/-- The tables hold the declarations, and no two of these have the same name. -/
structure Enters (decls : List Declaration) : Prop where
  class? : ∀ info numbers, .classType info numbers ∈ decls →
    c.declarations.class? info.name = some info
  function? : ∀ info numbers x, .function info numbers x ∈ decls →
    c.declarations.function? info.symbol.qualifiedName = some info
  distinct : (symbolNames decls).Nodup

variable {c}

theorem Enters.sublist {decls decls' : List Declaration} (h : c.Enters decls)
    (hsub : decls'.Sublist decls) : c.Enters decls' := by
  constructor
  · intro info numbers hinfo
    exact h.class? info numbers (hsub.subset hinfo)
  · intro info numbers x hinfo
    exact h.function? info numbers x (hsub.subset hinfo)
  · have hnames : (symbolNames decls').Sublist (symbolNames decls) :=
      (hsub.flatMap _).map _
    exact hnames.nodup h.distinct

mutual

theorem Enters.findsClass :
    ∀ {outer : Option String} {k : ClassDecl},
      c.Enters (classDeclarations c.toSite outer k) → c.FindsClass outer k
  | outer, .mk markers name params ctorMarkers parents members x, h => by
    have hkeyed := classEntry_keyed h.distinct
    rw [classDeclarations] at h
    rw [FindsClass]
    refine ⟨h.class? _ _ List.mem_cons_self, ?_⟩
    exact (h.sublist (List.sublist_cons_self _ _)).findsMembers hkeyed (List.Subset.refl _)
      (List.Subset.refl _) (List.Subset.refl _)

/-- The tables of the class hold at least what comes from the members at hand. -/
theorem Enters.findsMembers {info : ClassEntry} {owner : String} :
    ∀ {index ctors : Nat} {ms : List Member},
      c.Enters (memberDeclarations c.toSite owner ctors ms) → info.Keyed →
      memberSymbolsOf c.toSite owner index ctors ms ⊆ info.memberSymbols →
      methodsOf c.toSite owner ms ⊆ info.methods →
      otherCtorsOf c.toSite owner ctors ms ⊆ info.otherCtors →
      c.FindsMembers info owner index ctors ms
  | index, ctors, [], _, _, _, _, _ => by
    rw [FindsMembers]
    trivial
  | index, ctors, .func f :: ms, h, hkeyed, hsymbols, hmethods, hctors => by
    rw [memberDeclarations] at h
    rw [FindsMembers]
    obtain ⟨hsymbol, hsymbols⟩ := List.cons_subset.mp hsymbols
    obtain ⟨hmethod, hmethods⟩ := List.cons_subset.mp hmethods
    refine ⟨hkeyed.methodAt hsymbol ?_, ?_⟩
    · rwa [Site.name_function]
    · exact (h.sublist (List.sublist_cons_self _ _)).findsMembers hkeyed hsymbols hmethods hctors
  | index, ctors, .ctor k :: ms, h, hkeyed, hsymbols, hmethods, hctors => by
    rw [memberDeclarations] at h
    rw [FindsMembers]
    obtain ⟨hsymbol, hsymbols⟩ := List.cons_subset.mp hsymbols
    obtain ⟨hctor, hctors⟩ := List.cons_subset.mp hctors
    refine ⟨hkeyed.otherCtorAt hsymbol hctor, ?_⟩
    exact (h.sublist (List.sublist_cons_self _ _)).findsMembers hkeyed hsymbols hmethods hctors
  | index, ctors, .classDecl k :: ms, h, hkeyed, hsymbols, hmethods, hctors => by
    rw [memberDeclarations] at h
    rw [FindsMembers]
    refine ⟨(h.sublist (List.sublist_append_left _ _)).findsClass, ?_⟩
    exact (h.sublist (List.sublist_append_right _ _)).findsMembers hkeyed hsymbols hmethods hctors
  | index, ctors, .stmt _ :: ms, h, hkeyed, hsymbols, hmethods, hctors => by
    rw [memberDeclarations] at h
    rw [FindsMembers]
    exact h.findsMembers hkeyed hsymbols hmethods hctors

end

theorem enters_of_ofProgram {s : Site} {p : Program} {d : Declarations}
    (h : Declarations.ofProgram s p = .ok d) : Context.Enters ⟨s, d⟩ (declarationsOf s p) := by
  obtain ⟨-, hclasses, hfunctions⟩ := Declarations.ofProgram_ok h
  constructor
  · intro info numbers hinfo
    refine Declarations.class?_of_mem h ?_
    rw [hclasses]
    exact List.mem_filterMap.mpr ⟨_, hinfo, rfl⟩
  · intro info numbers x hinfo
    refine Declarations.function?_of_mem h ?_
    rw [hfunctions]
    exact List.mem_filterMap.mpr ⟨_, hinfo, rfl⟩
  · exact (Declarations.nameable_of_ofProgram h).symbols

/-- In the tables of a program, every declaration of it is found. -/
theorem finds_of_ofProgram {s : Site} {p : Program} {d : Declarations}
    (h : Declarations.ofProgram s p = .ok d) :
    ∀ item ∈ p.items, Context.FindsItem ⟨s, d⟩ item := by
  intro item hitem
  have henters := enters_of_ofProgram h
  have hsub : (itemDeclarations s item).Sublist (declarationsOf s p) := by
    obtain ⟨before, after, hsplit⟩ := List.append_of_mem hitem
    rw [declarationsOf, hsplit, List.flatMap_append, List.flatMap_cons]
    exact List.sublist_append_of_sublist_right (List.sublist_append_left _ _)
  cases item with
  | exception _ => trivial
  | func f => exact (henters.sublist hsub).function? _ _ _ (List.mem_singleton_self _)
  | classDecl k => exact (henters.sublist hsub).findsClass
  | stmt _ => trivial

end Context

end CheckedExceptions.Typing
