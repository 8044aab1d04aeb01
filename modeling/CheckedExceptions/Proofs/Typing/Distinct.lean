import CheckedExceptions.Proofs.Typing.Declarations
import Mathlib.Data.List.Nodup

/-!
Names in the declarations of a program. No two symbols have the same qualified name and no two
classes the same name, since a declaration that would add a second one is a fault of the program.
Every method of a class is among the symbols in its own right, so that the qualified name of a
method leads back to one class and one entry in it.
-/
namespace CheckedExceptions.Typing

open CheckedExceptions.Language

/-- An element with a fresh key can be put at the end of a list with distinct keys. -/
theorem nodup_map_concat {α β : Type} {key : α → β} {l : List α} {a : α}
    (h : (l.map key).Nodup) (hfresh : key a ∉ l.map key) : ((l ++ [a]).map key).Nodup := by
  rw [List.map_append, List.map_singleton, ← List.concat_eq_append]
  exact h.concat hfresh

namespace Declarations

/-- No name stands for two symbols, or for two classes. -/
structure Distinct (d : Declarations) : Prop where
  symbols : (d.symbols.map (·.qualifiedName)).Nodup
  classes : (d.classes.map (·.name)).Nodup

section Adding

variable (s : Site) {d : Declarations}

theorem declare_distinct (hd : d.Distinct) (symbol : CheckedExceptions.Symbol) (x : Extent) :
    Safe [] (d.declare s symbol x) fun d' => d'.Distinct ∧ d'.classes = d.classes := by
  unfold declare
  split
  · exact safe_fail s _ x
  · rename_i hfresh
    have hnew : symbol.qualifiedName ∉ d.symbols.map (·.qualifiedName) := by
      simpa using hfresh
    exact safe_ok ⟨⟨nodup_map_concat hd.symbols hnew, hd.classes⟩, rfl⟩

theorem add_distinct (hd : d.Distinct) (decl : Declaration) :
    Safe decl.numbers (d.add s decl) fun d' => d'.Distinct := by
  cases decl with
  | function info numbers x =>
    refine (readNumbers_safe numbers).bind fun _ _ => ?_
    refine ((declare_distinct s hd info.symbol x).weaken (List.nil_subset _)).bind ?_
    rintro d' ⟨hd', -⟩
    exact safe_ok ⟨hd'.symbols, hd'.classes⟩
  | classType info numbers =>
    simp only [add]
    split
    · exact safe_fail s _ _
    · rename_i hfresh
      refine (readNumbers_safe numbers).bind fun _ _ => ?_
      refine ((declare_distinct s hd info.symbol info.extent).weaken (List.nil_subset _)).bind ?_
      rintro d₁ ⟨hd₁, hclasses₁⟩
      refine ((declare_distinct s hd₁ info.ctor info.extent).weaken (List.nil_subset _)).bind ?_
      rintro d₂ ⟨hd₂, hclasses₂⟩
      have hnew : info.name ∉ d₂.classes.map (·.name) := by
        rw [hclasses₂, hclasses₁]
        intro hmem
        obtain ⟨c, hc, hname⟩ := List.mem_map.mp hmem
        have hsome : (d.class? info.name).isSome = true :=
          List.find?_isSome.mpr ⟨c, hc, by simpa using hname⟩
        exact hfresh (by rw [hsome, Bool.true_or])
      exact safe_ok ⟨hd₂.symbols, nodup_map_concat hd₂.classes hnew⟩
  | member info numbers x =>
    refine (readNumbers_safe numbers).bind fun _ _ => ?_
    refine ((declare_distinct s hd info.symbol x).weaken (List.nil_subset _)).mono ?_
    exact fun _ h => h.1

theorem addAll_distinct (hd : d.Distinct) (decls : List Declaration) :
    Safe (decls.flatMap Declaration.numbers) (d.addAll s decls) fun d' => d'.Distinct := by
  induction decls generalizing d with
  | nil => exact safe_ok hd
  | cons decl decls ih =>
    rw [List.flatMap_cons]
    refine ((add_distinct s hd decl).weaken (List.subset_append_left _ _)).bind fun _ hd₁ => ?_
    exact (ih hd₁).weaken (List.subset_append_right _ _)

end Adding

theorem name_of_class? {d : Declarations} {c : ClassEntry} {name : String}
    (h : d.class? name = some c) : c.name = name := by
  simpa using List.find?_some h

end Declarations

section Methods

/-- The qualified names of the methods in the classes of a list of declarations. -/
def methodNames (decls : List Declaration) : List String :=
  (decls.filterMap Declaration.class?).flatMap fun c => c.methods.map (·.2.symbol.qualifiedName)

def symbolNames (decls : List Declaration) : List String :=
  (declaredSymbols decls).map (·.qualifiedName)

theorem methodNames_append (decls decls' : List Declaration) :
    methodNames (decls ++ decls') = methodNames decls ++ methodNames decls' := by
  simp [methodNames]

theorem symbolNames_append (decls decls' : List Declaration) :
    symbolNames (decls ++ decls') = symbolNames decls ++ symbolNames decls' := by
  simp [symbolNames, declaredSymbols]

theorem symbolNames_cons (decl : Declaration) (decls : List Declaration) :
    symbolNames (decl :: decls) = decl.symbols.map (·.qualifiedName) ++ symbolNames decls := by
  simp [symbolNames, declaredSymbols]

mutual

/-- A name belongs to no more methods than symbols: each method has a declaration of its own, apart
from those of the classes further inside. -/
theorem count_methodNames_class (s : Site) (q : String) :
    ∀ (outer : Option String) (c : ClassDecl),
      (methodNames (classDeclarations s outer c)).count q ≤
        (symbolNames (classDeclarations s outer c)).count q
  | outer, .mk markers name params ctorMarkers parents members extent => by
    have hmembers := count_methodNames_members s q (qualifiedName outer name) 0 members
    rw [classDeclarations, symbolNames_cons, List.count_append]
    change List.count q (_ ++ methodNames _) ≤ _
    rw [List.count_append]
    change List.count q ((methodsOf s (qualifiedName outer name) members).map _) + _ ≤ _
    omega

theorem count_methodNames_members (s : Site) (q : String) :
    ∀ (owner : String) (index : Nat) (members : List Member),
      ((methodsOf s owner members).map (·.2.symbol.qualifiedName)).count q +
          (methodNames (memberDeclarations s owner index members)).count q ≤
        (symbolNames (memberDeclarations s owner index members)).count q
  | owner, index, [] => by
    rw [memberDeclarations]
    exact Nat.le_refl 0
  | owner, index, .func f :: ms => by
    have hrest := count_methodNames_members s q owner index ms
    rw [memberDeclarations, symbolNames_cons, List.count_append]
    change List.count q ([(s.function (some owner) f).symbol.qualifiedName] ++
      (methodsOf s owner ms).map (·.2.symbol.qualifiedName)) + (methodNames _).count q ≤
        List.count q [(s.function (some owner) f).symbol.qualifiedName] + _
    rw [List.count_append]
    change _ + (methodNames (memberDeclarations s owner index ms)).count q ≤ _
    omega
  | owner, index, .ctor c :: ms => by
    have hrest := count_methodNames_members s q owner (index + 1) ms
    rw [memberDeclarations, symbolNames_cons, List.count_append]
    change List.count q ((methodsOf s owner ms).map (·.2.symbol.qualifiedName)) +
      (methodNames (memberDeclarations s owner (index + 1) ms)).count q ≤ _
    omega
  | owner, index, .classDecl c :: ms => by
    have hclass := count_methodNames_class s q (some owner) c
    have hrest := count_methodNames_members s q owner index ms
    rw [memberDeclarations, symbolNames_append, methodNames_append, List.count_append,
      List.count_append]
    change List.count q ((methodsOf s owner ms).map (·.2.symbol.qualifiedName)) + _ ≤ _
    omega
  | owner, index, .stmt _ :: ms => by
    have hrest := count_methodNames_members s q owner index ms
    rw [memberDeclarations]
    exact hrest

end

theorem count_methodNames_items (s : Site) (q : String) (items : List Item) :
    (methodNames (items.flatMap (itemDeclarations s))).count q ≤
      (symbolNames (items.flatMap (itemDeclarations s))).count q := by
  induction items with
  | nil => exact Nat.le_refl 0
  | cons item items ih =>
    have hitem : (methodNames (itemDeclarations s item)).count q ≤
        (symbolNames (itemDeclarations s item)).count q := by
      cases item with
      | classDecl c => exact count_methodNames_class s q none c
      | func f => exact Nat.zero_le _
      | exception _ => exact Nat.zero_le _
      | stmt _ => exact Nat.zero_le _
    rw [List.flatMap_cons, methodNames_append, symbolNames_append, List.count_append,
      List.count_append]
    omega

/-- The declarations of all items of a program, in order. -/
def declarationsOf (s : Site) (p : Program) : List Declaration :=
  p.items.flatMap (itemDeclarations s)

def classNames (decls : List Declaration) : List String :=
  (decls.filterMap Declaration.class?).map (·.name)

def functionNames (decls : List Declaration) : List String :=
  (decls.filterMap Declaration.function?).map (·.symbol.qualifiedName)

/-- No two symbols and no two classes have the same name. -/
structure Nameable (decls : List Declaration) : Prop where
  symbols : (symbolNames decls).Nodup
  classes : (classNames decls).Nodup

section Lists

variable (decl : Declaration) (decls : List Declaration)

theorem functionNames_cons :
    functionNames (decl :: decls) =
      decl.function?.toList.map (·.symbol.qualifiedName) ++ functionNames decls := by
  unfold functionNames
  cases hfunction : decl.function? with
  | none => rw [List.filterMap_cons_none hfunction]; rfl
  | some info => rw [List.filterMap_cons_some hfunction]; rfl

theorem functionNames_sublist : (functionNames decls).Sublist (symbolNames decls) := by
  induction decls with
  | nil => exact List.Sublist.refl _
  | cons decl decls ih =>
    rw [functionNames_cons, symbolNames_cons]
    refine List.Sublist.append ?_ ih
    cases decl with
    | function info _ _ => exact List.Sublist.refl _
    | classType info _ => exact List.nil_sublist _
    | member info _ _ => exact List.nil_sublist _

end Lists

namespace Declarations

variable {s : Site} {p : Program} {d : Declarations}

/-- What the declarations of a program hold. -/
theorem ofProgram_ok (h : ofProgram s p = .ok d) :
    d.symbols = declaredSymbols (declarationsOf s p) ∧
      d.classes = (declarationsOf s p).filterMap Declaration.class? ∧
      d.functions = (declarationsOf s p).filterMap Declaration.function? :=
  (addAll_safe s {} _).of_ok h

theorem distinct_of_ofProgram (h : ofProgram s p = .ok d) : d.Distinct := by
  have hempty : Distinct {} := ⟨List.nodup_nil, List.nodup_nil⟩
  exact (addAll_distinct s hempty _).of_ok h

theorem nameable_of_ofProgram (h : ofProgram s p = .ok d) :
    Nameable (declarationsOf s p) := by
  have hdistinct := distinct_of_ofProgram h
  obtain ⟨hsymbols, hclasses, -⟩ := ofProgram_ok h
  constructor
  · have hnodup := hdistinct.symbols
    rwa [hsymbols] at hnodup
  · have hnodup := hdistinct.classes
    rwa [hclasses] at hnodup

theorem nodup_functions (h : ofProgram s p = .ok d) :
    (d.functions.map (·.symbol.qualifiedName)).Nodup := by
  rw [(ofProgram_ok h).2.2]
  exact (nameable_of_ofProgram h).symbols.sublist (functionNames_sublist _)

/-- A function that is declared is found under its name. -/
theorem function?_of_mem (h : ofProgram s p = .ok d) {f : Callable} (hf : f ∈ d.functions) :
    d.function? f.symbol.qualifiedName = some f :=
  (find?_key_eq_some _ (nodup_functions h)).mpr ⟨hf, rfl⟩

theorem class?_of_mem (h : ofProgram s p = .ok d) {info : ClassEntry} (hinfo : info ∈ d.classes) :
    d.class? info.name = some info :=
  (find?_key_eq_some _ (distinct_of_ofProgram h).classes).mpr ⟨hinfo, rfl⟩

end Declarations

/-- The methods of all classes, each with its class. -/
def Declarations.methodEntries (d : Declarations) : List (ClassEntry × String × Callable) :=
  d.classes.flatMap fun c => c.methods.map (c, ·)

theorem Declarations.mem_methodEntries {d : Declarations} {c : ClassEntry} {m : String × Callable} :
    (c, m) ∈ d.methodEntries ↔ c ∈ d.classes ∧ m ∈ c.methods := by
  simp only [methodEntries, List.mem_flatMap, List.mem_map, Prod.mk.injEq]
  constructor
  · rintro ⟨c', hc', m', hm', rfl, rfl⟩
    exact ⟨hc', hm'⟩
  · rintro ⟨hc, hm⟩
    exact ⟨c, hc, m, hm, rfl, rfl⟩

/-- Besides, a qualified name leads to at most one method of one class. -/
structure Declarations.Unambiguous (d : Declarations) : Prop extends d.Distinct where
  methods : (d.methodEntries.map (·.2.2.symbol.qualifiedName)).Nodup

theorem Declarations.Unambiguous.eq_of_name {d : Declarations} (hd : d.Unambiguous)
    {e e' : ClassEntry × String × Callable} (he : e ∈ d.methodEntries) (he' : e' ∈ d.methodEntries)
    (hname : e.2.2.symbol.qualifiedName = e'.2.2.symbol.qualifiedName) : e = e' :=
  List.inj_on_of_nodup_map hd.methods he he' hname

/-- The declarations of a program are unambiguous. -/
theorem Declarations.ofProgram_unambiguous {s : Site} {p : Program} {d : Declarations}
    (h : ofProgram s p = .ok d) : d.Unambiguous := by
  obtain ⟨-, hclasses, -⟩ := ofProgram_ok h
  refine ⟨distinct_of_ofProgram h, ?_⟩
  refine List.nodup_iff_count_le_one.mpr fun q => ?_
  have hmethods : d.methodEntries.map (·.2.2.symbol.qualifiedName) =
      methodNames (declarationsOf s p) := by
    rw [methodEntries, hclasses, List.map_flatMap, methodNames]
    simp only [List.map_map]
    rfl
  have hsymbol := List.nodup_iff_count_le_one.mp (nameable_of_ofProgram h).symbols q
  have hcount : (methodNames (declarationsOf s p)).count q ≤
      (symbolNames (declarationsOf s p)).count q := count_methodNames_items s q p.items
  rw [hmethods]
  omega

end Methods

end CheckedExceptions.Typing
