import CheckedExceptions.Proofs.Basic
import CheckedExceptions.Proofs.Typing.Blame
import CheckedExceptions.Typing.Lineage

/-!
What the declarations of a program hold. They are laid out in one list, and adding that list one by
one keeps every symbol, every class and every function of it, in order. A class finds its methods
and constructors among the symbols, since its members stand in the list as well. For whatever goes
wrong on the way the program is to blame.
-/
namespace CheckedExceptions.Typing

open CheckedExceptions.Language

namespace Declaration

/-- The symbols of a declaration; a class comes with its primary constructor. -/
def symbols : Declaration → List CheckedExceptions.Symbol
  | function info _ _ | member info _ _ => [info.symbol]
  | classType info _ => [info.symbol, info.ctor]

/-- The numbers in the markers of a declaration. -/
def numbers : Declaration → List String
  | function _ numbers _ | member _ numbers _ | classType _ numbers => numbers

def class? : Declaration → Option ClassEntry
  | classType info _ => some info
  | _ => none

def function? : Declaration → Option Callable
  | function info _ _ => some info
  | _ => none

end Declaration

/-- The symbols of a list of declarations, in order. -/
def declaredSymbols (decls : List Declaration) : List CheckedExceptions.Symbol :=
  decls.flatMap Declaration.symbols

namespace Declarations

theorem declare_safe (s : Site) (symbol : CheckedExceptions.Symbol) (x : Extent)
    (d : Declarations) :
    Safe [] (d.declare s symbol x) fun d' => d' = { d with symbols := d.symbols ++ [symbol] } := by
  unfold declare
  split
  · exact safe_fail s _ x
  · exact safe_ok rfl

/-- A declaration adds its symbols, and itself to the classes or the functions if it is one. -/
theorem add_safe (s : Site) (d : Declarations) (decl : Declaration) :
    Safe decl.numbers (d.add s decl) fun d' =>
      d'.symbols = d.symbols ++ decl.symbols ∧ d'.classes = d.classes ++ decl.class?.toList ∧
        d'.functions = d.functions ++ decl.function?.toList := by
  cases decl with
  | function info numbers x =>
    refine (readNumbers_safe numbers).bind fun _ _ => ?_
    refine ((declare_safe s info.symbol x d).weaken (List.nil_subset _)).bind ?_
    rintro _ rfl
    exact safe_ok ⟨rfl, (List.append_nil _).symm, rfl⟩
  | classType info numbers =>
    simp only [add]
    split
    · exact safe_fail s _ _
    · refine (readNumbers_safe numbers).bind fun _ _ => ?_
      refine ((declare_safe s info.symbol info.extent d).weaken (List.nil_subset _)).bind ?_
      rintro _ rfl
      refine ((declare_safe s info.ctor info.extent _).weaken (List.nil_subset _)).bind ?_
      rintro _ rfl
      exact safe_ok ⟨by simp [Declaration.symbols], rfl, (List.append_nil _).symm⟩
  | member info numbers x =>
    refine (readNumbers_safe numbers).bind fun _ _ => ?_
    refine ((declare_safe s info.symbol x d).weaken (List.nil_subset _)).mono ?_
    rintro _ rfl
    exact ⟨rfl, (List.append_nil _).symm, (List.append_nil _).symm⟩

theorem addAll_safe (s : Site) (d : Declarations) (decls : List Declaration) :
    Safe (decls.flatMap Declaration.numbers) (d.addAll s decls) fun d' =>
      d'.symbols = d.symbols ++ declaredSymbols decls ∧
        d'.classes = d.classes ++ decls.filterMap Declaration.class? ∧
        d'.functions = d.functions ++ decls.filterMap Declaration.function? := by
  induction decls generalizing d with
  | nil => exact safe_ok ⟨by simp [declaredSymbols], by simp, by simp⟩
  | cons decl decls ih =>
    rw [List.flatMap_cons]
    refine ((add_safe s d decl).weaken (List.subset_append_left _ _)).bind ?_
    rintro d₁ ⟨hsymbols, hclasses, hfunctions⟩
    refine ((ih d₁).weaken (List.subset_append_right _ _)).mono ?_
    rintro d₂ ⟨hsymbols₂, hclasses₂, hfunctions₂⟩
    refine ⟨?_, ?_, ?_⟩
    · rw [hsymbols₂, hsymbols, List.append_assoc]
      rfl
    · rw [hclasses₂, hclasses, List.append_assoc]
      cases hclass : decl.class? <;> simp [hclass]
    · rw [hfunctions₂, hfunctions, List.append_assoc]
      cases hfunction : decl.function? <;> simp [hfunction]

end Declarations

/-- All callables of a class have their symbols in the list. -/
structure ClassEntry.ListedIn (info : ClassEntry) (symbols : List CheckedExceptions.Symbol) :
    Prop where
  ctor : info.ctor ∈ symbols
  methods : ∀ m ∈ info.methods, m.2.symbol ∈ symbols
  otherCtors : ∀ k ∈ info.otherCtors, k.symbol ∈ symbols

theorem ClassEntry.ListedIn.mono {info : ClassEntry}
    {symbols symbols' : List CheckedExceptions.Symbol} (h : info.ListedIn symbols)
    (hsub : symbols ⊆ symbols') : info.ListedIn symbols' :=
  ⟨hsub h.ctor, fun m hm => hsub (h.methods m hm), fun k hk => hsub (h.otherCtors k hk)⟩

theorem declaredSymbols_subset {decls decls' : List Declaration} (h : decls ⊆ decls') :
    declaredSymbols decls ⊆ declaredSymbols decls' := by
  intro symbol hsymbol
  obtain ⟨decl, hdecl, hmem⟩ := List.mem_flatMap.mp hsymbol
  exact List.mem_flatMap.mpr ⟨decl, h hdecl, hmem⟩

/-- The methods among the members are declared in their order. -/
theorem methodsOf_sublist (s : Site) (owner : String) (index : Nat) (members : List Member) :
    ((methodsOf s owner members).map (·.2.symbol)).Sublist
      (declaredSymbols (memberDeclarations s owner index members)) := by
  induction members generalizing index with
  | nil => exact List.nil_sublist _
  | cons member members ih =>
    rw [memberDeclarations.eq_def]
    cases member with
    | func f => exact (ih index).cons_cons _
    | ctor c => exact (ih (index + 1)).cons _
    | classDecl c =>
      simp only [declaredSymbols, List.flatMap_append]
      exact List.sublist_append_of_sublist_right (ih index)
    | stmt _ => exact ih index

/-- The constructors among the members are declared in their order. -/
theorem otherCtorsOf_sublist (s : Site) (owner : String) (index : Nat) (members : List Member) :
    ((otherCtorsOf s owner index members).map (·.symbol)).Sublist
      (declaredSymbols (memberDeclarations s owner index members)) := by
  induction members generalizing index with
  | nil => exact List.nil_sublist _
  | cons member members ih =>
    rw [memberDeclarations.eq_def]
    cases member with
    | func f => exact (ih index).cons _
    | ctor c => exact (ih (index + 1)).cons_cons _
    | classDecl c =>
      simp only [declaredSymbols, List.flatMap_append]
      exact List.sublist_append_of_sublist_right (ih index)
    | stmt _ => exact ih index

theorem classEntry_listed (s : Site) (outer : Option String) (c : ClassDecl) :
    (classEntry s outer c).ListedIn (declaredSymbols (classDeclarations s outer c)) := by
  cases c with
  | mk markers name params ctorMarkers parents members extent =>
    rw [classDeclarations]
    refine ⟨?_, fun m hm => ?_, fun k hk => ?_⟩
    · exact List.mem_append_left _ (List.mem_cons_of_mem _ (List.mem_singleton_self _))
    · exact List.mem_append_right _
        ((methodsOf_sublist s _ 0 members).subset (List.mem_map_of_mem hm))
    · exact List.mem_append_right _
        ((otherCtorsOf_sublist s _ 0 members).subset (List.mem_map_of_mem hk))

mutual

/-- Each class in the list of declarations of a class has its callables in that list. -/
theorem listed_of_mem_classDeclarations (s : Site) :
    ∀ (outer : Option String) (c : ClassDecl) (info : ClassEntry) (numbers : List String),
      .classType info numbers ∈ classDeclarations s outer c →
      info.ListedIn (declaredSymbols (classDeclarations s outer c))
  | outer, .mk markers name params ctorMarkers parents members extent, info, numbers, h => by
    have hself := classEntry_listed s outer
      (.mk markers name params ctorMarkers parents members extent)
    rw [classDeclarations] at h hself ⊢
    rcases List.mem_cons.mp h with heq | h
    · cases heq
      exact hself
    · have hinner :=
        listed_of_mem_memberDeclarations s (qualifiedName outer name) 0 members info _ h
      exact hinner.mono (declaredSymbols_subset (List.subset_cons_self _ _))

theorem listed_of_mem_memberDeclarations (s : Site) :
    ∀ (owner : String) (index : Nat) (members : List Member) (info : ClassEntry)
      (numbers : List String), .classType info numbers ∈ memberDeclarations s owner index members →
      info.ListedIn (declaredSymbols (memberDeclarations s owner index members))
  | owner, index, [], info, numbers, h => by
    rw [memberDeclarations] at h
    cases h
  | owner, index, .func f :: ms, info, numbers, h => by
    rw [memberDeclarations] at h ⊢
    rcases List.mem_cons.mp h with heq | h
    · cases heq
    · exact (listed_of_mem_memberDeclarations s owner index ms info _ h).mono
        (declaredSymbols_subset (List.subset_cons_self _ _))
  | owner, index, .ctor c :: ms, info, numbers, h => by
    rw [memberDeclarations] at h ⊢
    rcases List.mem_cons.mp h with heq | h
    · cases heq
    · exact (listed_of_mem_memberDeclarations s owner (index + 1) ms info _ h).mono
        (declaredSymbols_subset (List.subset_cons_self _ _))
  | owner, index, .classDecl c :: ms, info, numbers, h => by
    rw [memberDeclarations] at h ⊢
    rcases List.mem_append.mp h with h | h
    · exact (listed_of_mem_classDeclarations s (some owner) c info _ h).mono
        (declaredSymbols_subset (List.subset_append_left _ _))
    · exact (listed_of_mem_memberDeclarations s owner index ms info _ h).mono
        (declaredSymbols_subset (List.subset_append_right _ _))
  | owner, index, .stmt _ :: ms, info, numbers, h => by
    rw [memberDeclarations] at h ⊢
    exact listed_of_mem_memberDeclarations s owner index ms info _ h

end

/-- Every name of the declarations leads to symbols of the declarations. -/
structure Declarations.Closed (d : Declarations) : Prop where
  classes : ∀ info ∈ d.classes, info.ListedIn d.symbols
  functions : ∀ f ∈ d.functions, f.symbol ∈ d.symbols

theorem listed_of_mem_itemDeclarations {s : Site} {items : List Item} {info : ClassEntry}
    {numbers : List String} (h : .classType info numbers ∈ items.flatMap (itemDeclarations s)) :
    info.ListedIn (declaredSymbols (items.flatMap (itemDeclarations s))) := by
  obtain ⟨item, hitem, hinfo⟩ := List.mem_flatMap.mp h
  have hsub : itemDeclarations s item ⊆ items.flatMap (itemDeclarations s) :=
    fun decl hdecl => List.mem_flatMap.mpr ⟨item, hitem, hdecl⟩
  cases item with
  | func f => cases List.mem_singleton.mp hinfo
  | classDecl c =>
    exact (listed_of_mem_classDeclarations s none c info _ hinfo).mono (declaredSymbols_subset hsub)
  | exception _ => cases hinfo
  | stmt _ => cases hinfo

mutual

/-- The numbers of the declarations are numbers of the text. -/
theorem numbers_classDeclarations (s : Site) :
    ∀ (outer : Option String) (k : ClassDecl),
      (classDeclarations s outer k).flatMap Declaration.numbers ⊆ k.numbers
  | outer, .mk markers name params ctorMarkers parents members extent => by
    rw [classDeclarations, ClassDecl.numbers, List.flatMap_cons]
    refine List.append_subset.mpr ⟨List.subset_append_left _ _, ?_⟩
    exact List.subset_append_of_subset_right _
      (numbers_memberDeclarations s (qualifiedName outer name) 0 members)

theorem numbers_memberDeclarations (s : Site) :
    ∀ (owner : String) (index : Nat) (members : List Member),
      (memberDeclarations s owner index members).flatMap Declaration.numbers ⊆
        Member.numbersAll members
  | owner, index, [] => by
    rw [memberDeclarations]
    exact List.nil_subset _
  | owner, index, .func f :: ms => by
    rw [memberDeclarations, Member.numbersAll, List.flatMap_cons]
    refine List.append_subset.mpr ⟨List.subset_append_left _ _, ?_⟩
    exact List.subset_append_of_subset_right _
      (List.subset_append_of_subset_right _ (numbers_memberDeclarations s owner index ms))
  | owner, index, .ctor k :: ms => by
    rw [memberDeclarations, Member.numbersAll, List.flatMap_cons]
    refine List.append_subset.mpr ⟨List.subset_append_left _ _, ?_⟩
    exact List.subset_append_of_subset_right _
      (List.subset_append_of_subset_right _ (numbers_memberDeclarations s owner (index + 1) ms))
  | owner, index, .classDecl k :: ms => by
    rw [memberDeclarations, Member.numbersAll, List.flatMap_append]
    exact List.append_subset.mpr
      ⟨List.subset_append_of_subset_left _ (numbers_classDeclarations s (some owner) k),
        List.subset_append_of_subset_right _ (numbers_memberDeclarations s owner index ms)⟩
  | owner, index, .stmt t :: ms => by
    rw [memberDeclarations, Member.numbersAll]
    exact List.subset_append_of_subset_right _ (numbers_memberDeclarations s owner index ms)

end

theorem numbers_itemDeclarations (s : Site) (items : List Item) :
    (items.flatMap (itemDeclarations s)).flatMap Declaration.numbers ⊆
      items.flatMap Item.numbers := by
  intro digits hdigits
  obtain ⟨decl, hdecl, hmem⟩ := List.mem_flatMap.mp hdigits
  obtain ⟨item, hitem, hdecl⟩ := List.mem_flatMap.mp hdecl
  refine List.mem_flatMap.mpr ⟨item, hitem, ?_⟩
  have hnumbers : digits ∈ (itemDeclarations s item).flatMap Declaration.numbers :=
    List.mem_flatMap.mpr ⟨decl, hdecl, hmem⟩
  cases item with
  | exception _ => cases hdecl
  | func f =>
    cases List.mem_singleton.mp hdecl
    exact List.mem_append_left _ hmem
  | classDecl k => exact numbers_classDeclarations s none k hnumbers
  | stmt _ => cases hdecl

/-- The declarations of a program are closed. -/
theorem Declarations.ofProgram_safe (s : Site) (p : Program) :
    Safe p.numbers (ofProgram s p) Closed := by
  refine ((addAll_safe s {} _).weaken (numbers_itemDeclarations s p.items)).mono ?_
  rintro d ⟨hsymbols, hclasses, hfunctions⟩
  refine ⟨fun info hinfo => ?_, fun f hf => ?_⟩
  · rw [hclasses, List.nil_append] at hinfo
    obtain ⟨decl, hdecl, hclass⟩ := List.mem_filterMap.mp hinfo
    cases decl with
    | classType info' =>
      cases hclass
      rw [hsymbols]
      exact listed_of_mem_itemDeclarations hdecl
    | function _ _ _ => cases hclass
    | member _ _ _ => cases hclass
  · rw [hfunctions, List.nil_append] at hf
    obtain ⟨decl, hdecl, hfunction⟩ := List.mem_filterMap.mp hf
    cases decl with
    | function info numbers x =>
      cases hfunction
      rw [hsymbols]
      exact List.mem_flatMap.mpr ⟨_, hdecl, List.mem_singleton_self _⟩
    | classType _ _ => cases hfunction
    | member _ _ _ => cases hfunction

namespace Declarations

variable (s : Site) (d : Declarations)

theorem mem_classes_of_class? {d : Declarations} {name : String} {info : ClassEntry}
    (h : d.class? name = some info) : info ∈ d.classes :=
  List.mem_of_find?_eq_some h

theorem unseenParents_safe (c : ClassEntry) (seen parents : List String) :
    Safe [] (unseenParents s d c seen parents) fun found => ∀ info ∈ found, info ∈ d.classes := by
  induction parents generalizing seen with
  | nil => exact safe_ok (List.forall_mem_nil _)
  | cons p ps ih =>
    unfold unseenParents
    cases hclass : d.class? p with
    | none => exact safe_fail s _ _
    | some parent =>
      by_cases hseen : parent.name ∈ seen
      · simpa only [hseen, ↓reduceIte] using ih seen
      · simp only [hseen, ↓reduceIte]
        refine (ih (parent.name :: seen)).bind fun found hfound => safe_ok ?_
        exact List.forall_mem_cons.mpr ⟨mem_classes_of_class? hclass, hfound⟩

/-- The search for ancestors only comes to classes of the program. -/
theorem search_safe (steps : Nat) (waiting : List ClassEntry) (seen : List String) :
    Safe [] (search s d steps waiting seen) fun found => ∀ info ∈ found, info ∈ d.classes := by
  induction steps generalizing waiting seen with
  | zero => exact safe_ok (List.forall_mem_nil _)
  | succ steps ih =>
    cases waiting with
    | nil => exact safe_ok (List.forall_mem_nil _)
    | cons c waiting =>
      rw [search]
      refine (unseenParents_safe s d c seen c.parents).bind fun found hfound => ?_
      refine (ih _ _).bind fun others hothers => safe_ok ?_
      exact List.forall_mem_append.mpr ⟨hfound, hothers⟩

theorem overrides_safe : Safe [] (overrides s d) fun _ => True := by
  have hpairs : ∀ c ∈ d.classes, Safe [] (overridePairs s d c) fun _ => True :=
    fun c _ => (search_safe s d _ _ _).bind fun _ _ => safe_ok trivial
  exact (safe_mapM hpairs).bind fun _ _ => safe_ok trivial

/-- The method that a call on a class means is its own or that of another class. -/
theorem methodOf_safe (c : ClassEntry) (name : String) :
    Safe [] (methodOf s d c name) fun found =>
      ∀ m, found = some m → ∃ a, (a = c ∨ a ∈ d.classes) ∧ a.method? name = some m := by
  unfold methodOf
  cases hmethod : c.method? name with
  | some m =>
    refine safe_ok fun m' hm' => ⟨c, Or.inl rfl, ?_⟩
    cases hm'
    exact hmethod
  | none =>
    refine (search_safe s d _ _ _).bind fun ancestors hancestors => safe_ok fun m hm => ?_
    obtain ⟨a, ha, hmethod⟩ := List.exists_of_findSome?_eq_some hm
    exact ⟨a, Or.inr (hancestors a ha), hmethod⟩

theorem symbol_of_method? {d : Declarations} {c : ClassEntry} (hc : c.ListedIn d.symbols)
    {name : String} {m : Callable} (h : c.method? name = some m) : m.symbol ∈ d.symbols :=
  hc.methods (name, m) (mem_of_lookup h)

/-- A method that a call on a class means is one of the declared ones. -/
theorem symbol_of_methodOf {d : Declarations} (hd : d.Closed) {c : ClassEntry}
    (hc : c.ListedIn d.symbols) {name : String} {m : Callable}
    (h : methodOf s d c name = .ok (some m)) : m.symbol ∈ d.symbols := by
  obtain ⟨a, rfl | ha, hmethod⟩ := (methodOf_safe s d c name).of_ok h m rfl
  · exact symbol_of_method? hc hmethod
  · exact symbol_of_method? (hd.classes a ha) hmethod

end Declarations

end CheckedExceptions.Typing
