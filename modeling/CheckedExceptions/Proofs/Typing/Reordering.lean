import CheckedExceptions.Proofs.Typing.AlikeTrees
import CheckedExceptions.Proofs.Typing.DeclarationOrder
import CheckedExceptions.Proofs.Typing.Rounds
import CheckedExceptions.Proofs.Typing.Running
import CheckedExceptions.Proofs.Typing.Sharing

/-!
Programs in another order. Let a program consist of declarations only, and another one of the same
declarations in some order. If both are typed, they register the same types, declare the same
symbols with the same overridden methods, and have the same node for every declaration. They are
also typed in the same cases, except where a function has the name of a class inside another class:
such a class is refused behind the function, but not in front of it.
-/
namespace CheckedExceptions

open CheckedExceptions.Language
open CheckedExceptions.Hierarchy (Ordered)

namespace Language

/-- Anything but a statement. -/
def Item.isDeclaration : Item → Bool
  | .stmt _ => false
  | _ => true

/-- Anything that has a node in the tree of its program. -/
def Item.isDefinition : Item → Bool
  | .exception _ => false
  | _ => true

mutual

/-- The names of a class and of the classes inside it. -/
def ClassDecl.allNames : ClassDecl → List String
  | .mk _ name _ _ _ members _ => name :: Member.classNames members

def Member.classNames : List Member → List String
  | [] => []
  | .classDecl c :: ms => c.allNames ++ Member.classNames ms
  | .func _ :: ms => Member.classNames ms
  | .ctor _ :: ms => Member.classNames ms
  | .stmt _ :: ms => Member.classNames ms

end

def ClassDecl.name : ClassDecl → String
  | .mk _ name _ _ _ _ _ => name

/-- The names of the classes inside a class. -/
def ClassDecl.innerNames : ClassDecl → List String
  | .mk _ _ _ _ _ members _ => Member.classNames members

theorem ClassDecl.mem_allNames {c : ClassDecl} {name : String} :
    name ∈ c.allNames ↔ name = c.name ∨ name ∈ c.innerNames := by
  cases c
  rw [ClassDecl.allNames]
  exact List.mem_cons

/-- No function in front of a class has the name of a class inside it. -/
def Program.InnerNamesFree (p : Program) : Prop :=
  p.items.Pairwise fun item later =>
    ∀ f c, item = .func f → later = .classDecl c → f.name ∉ c.innerNames

/-- Both programs have the same items, apart from their order and their places. -/
def Program.Reordered (p p' : Program) : Prop :=
  (p.items.map Item.unplaced).Perm (p'.items.map Item.unplaced)

theorem Item.isDeclaration_unplaced (item : Item) :
    item.unplaced.isDeclaration = item.isDeclaration := by
  cases item <;> rfl

theorem Item.isDefinition_unplaced (item : Item) :
    item.unplaced.isDefinition = item.isDefinition := by
  cases item <;> rfl

namespace Program.Reordered

variable {p p' : Program} (h : p.Reordered p')

include h

theorem symm : p'.Reordered p := List.Perm.symm h

theorem exists_item {item : Item} (hitem : item ∈ p.items) :
    ∃ item' ∈ p'.items, item'.unplaced = item.unplaced :=
  List.mem_map.mp (h.mem_iff.mp (List.mem_map_of_mem hitem))

theorem isDeclaration (hp : ∀ item ∈ p.items, item.isDeclaration = true) :
    ∀ item ∈ p'.items, item.isDeclaration = true := by
  intro item' hitem'
  obtain ⟨item, hitem, hsame⟩ := h.symm.exists_item hitem'
  rw [← Item.isDeclaration_unplaced, ← hsame, Item.isDeclaration_unplaced]
  exact hp item hitem

end Program.Reordered

end Language

namespace Typing

section Names

mutual

theorem classNames_classDeclarations (s : Site) :
    ∀ (outer : Option String) (c : ClassDecl),
      classNames (classDeclarations s outer c) = c.allNames ∧
        functionNames (classDeclarations s outer c) = []
  | outer, .mk markers name params ctorMarkers parents members extent => by
    obtain ⟨hclasses, hfunctions⟩ :=
      classNames_memberDeclarations s (qualifiedName outer name) 0 members
    rw [classDeclarations, classNames_cons, functionNames_cons, hclasses, hfunctions,
      ClassDecl.allNames]
    exact ⟨rfl, rfl⟩

theorem classNames_memberDeclarations (s : Site) :
    ∀ (owner : String) (index : Nat) (members : List Member),
      classNames (memberDeclarations s owner index members) = Member.classNames members ∧
        functionNames (memberDeclarations s owner index members) = []
  | owner, index, [] => by
    rw [memberDeclarations, Member.classNames]
    exact ⟨rfl, rfl⟩
  | owner, index, .func f :: ms => by
    rw [memberDeclarations, Member.classNames, classNames_cons, functionNames_cons]
    exact classNames_memberDeclarations s owner index ms
  | owner, index, .ctor k :: ms => by
    rw [memberDeclarations, Member.classNames, classNames_cons, functionNames_cons]
    exact classNames_memberDeclarations s owner (index + 1) ms
  | owner, index, .classDecl c :: ms => by
    obtain ⟨hclasses, hfunctions⟩ := classNames_classDeclarations s (some owner) c
    obtain ⟨hclasses', hfunctions'⟩ := classNames_memberDeclarations s owner index ms
    rw [memberDeclarations, Member.classNames, classNames_append, functionNames_append, hclasses,
      hclasses', hfunctions, hfunctions']
    exact ⟨rfl, rfl⟩
  | owner, index, .stmt _ :: ms => by
    rw [memberDeclarations, Member.classNames]
    exact classNames_memberDeclarations s owner index ms

end

variable {s : Site} {item : Item} {decl : Declaration}

theorem exists_func_of_function? (hdecl : decl ∈ itemDeclarations s item) {f : Callable}
    (hf : decl.function? = some f) :
    ∃ g, item = .func g ∧ f.symbol.qualifiedName = g.name := by
  cases item with
  | func g =>
    rw [List.mem_singleton.mp hdecl] at hf
    cases hf
    exact ⟨g, rfl, rfl⟩
  | classDecl c =>
    have hmem : f.symbol.qualifiedName ∈ functionNames (classDeclarations s none c) :=
      List.mem_map_of_mem (List.mem_filterMap.mpr ⟨decl, hdecl, hf⟩)
    rw [(classNames_classDeclarations s none c).2] at hmem
    cases hmem
  | exception _ => cases hdecl
  | stmt _ => cases hdecl

theorem exists_classDecl_of_class? (hdecl : decl ∈ itemDeclarations s item) {e : ClassEntry}
    (he : decl.class? = some e) : ∃ c, item = .classDecl c ∧ e.name ∈ c.allNames := by
  cases item with
  | func g =>
    rw [List.mem_singleton.mp hdecl] at he
    cases he
  | classDecl c =>
    refine ⟨c, rfl, ?_⟩
    rw [← (classNames_classDeclarations s none c).1]
    exact mem_classNames.mpr ⟨decl, hdecl, e, he, rfl⟩
  | exception _ => cases hdecl
  | stmt _ => cases hdecl

theorem classNamesFree_itemDeclarations (s : Site) (item : Item) :
    ClassNamesFree (itemDeclarations s item) := by
  apply List.pairwise_of_forall_mem_list
  intro decl hdecl later hlater f hf e he
  obtain ⟨g, rfl, -⟩ := exists_func_of_function? hdecl hf
  obtain ⟨c, hc, -⟩ := exists_classDecl_of_class? hlater he
  cases hc

/-- A class that is not inside another one differs from the functions by its symbol. -/
theorem name_ne_of_nameable {p : Program} (hnameable : Nameable (declarationsOf s p))
    {g : FuncDecl} {c : ClassDecl} (hg : .func g ∈ p.items) (hc : .classDecl c ∈ p.items) :
    g.name ≠ c.name := by
  intro hname
  have hsymbols := hnameable.symbols
  rw [declarationsOf, symbolNames_flatMap, List.nodup_flatMap] at hsymbols
  have hsymm : Std.Symm (Function.onFun List.Disjoint
      fun item => symbolNames (itemDeclarations s item)) := 
    ⟨fun _ _ h _ hfirst hsecond => h hsecond hfirst⟩
  have hdisjoint := hsymbols.2.forall hg hc (by simp)
  obtain ⟨markers, name, params, ctorMarkers, parents, members, extent⟩ := c
  apply hdisjoint (a := g.name) List.mem_cons_self
  simp only [itemDeclarations, classDeclarations]
  rw [hname]
  exact List.mem_cons_self

theorem classNamesFree_iff {p : Program} (hnameable : Nameable (declarationsOf s p)) :
    ClassNamesFree (declarationsOf s p) ↔ p.InnerNamesFree := by
  have hitems : ∀ item ∈ p.items, (itemDeclarations s item).Pairwise
      fun decl later => ∀ f, decl.function? = some f → later.Avoids f :=
    fun item _ => classNamesFree_itemDeclarations s item
  rw [ClassNamesFree, declarationsOf, List.pairwise_flatMap, and_iff_right hitems]
  apply List.Pairwise.iff_of_mem
  intro item later hitem hlater
  constructor
  · rintro havoids g c rfl rfl hname
    have hmem : g.name ∈ classNames (classDeclarations s none c) := by
      rw [(classNames_classDeclarations s none c).1]
      exact ClassDecl.mem_allNames.mpr (Or.inr hname)
    obtain ⟨decl, hdecl, e, he, hname⟩ := mem_classNames.mp hmem
    exact havoids _ (List.mem_singleton_self _) decl hdecl _ rfl e he hname
  · intro hinner decl hdecl later' hlater' f hf e he hname
    obtain ⟨g, rfl, hg⟩ := exists_func_of_function? hdecl hf
    obtain ⟨c, rfl, hc⟩ := exists_classDecl_of_class? hlater' he
    rw [hname, hg] at hc
    rcases ClassDecl.mem_allNames.mp hc with hc | hc
    · exact name_ne_of_nameable hnameable hitem hlater hc
    · exact hinner g c rfl rfl hc

end Names

section Registering

variable {file : Option String} {h h₁ h₁' : Hierarchy} {p p' : Program}

/-- The entries of the exception types of a program. -/
theorem entries_perm (hperm : p.Reordered p') :
    ((exceptionDecls p).map entryOf).Perm ((exceptionDecls p').map entryOf) := by
  have hview : ∀ p : Program, (exceptionDecls p).map entryOf =
      (p.items.map Item.unplaced).filterMap fun
        | .exception d => some (entryOf d)
        | _ => none := by
    intro p
    rw [exceptionDecls, List.map_filterMap, List.filterMap_map]
    apply List.filterMap_congr
    intro item _
    cases item <;> rfl
  rw [hview, hview]
  exact hperm.filterMap _

theorem registerExceptions_reordered (hordered : Ordered h.entries) (hperm : p.Reordered p')
    (hrun : registerExceptions file (exceptionDecls p) h = .ok () h₁) :
    ∃ h₁', registerExceptions file (exceptionDecls p') h = .ok () h₁' :=
  (registerExceptions_ok_iff hordered).mpr
    (((registerExceptions_ok_iff hordered).mp ⟨h₁, hrun⟩).perm (entries_perm hperm))

/-- Both programs register the same types. -/
theorem same_types_of_registered (hordered : Ordered h.entries) (hperm : p.Reordered p')
    (hrun : registerExceptions file (exceptionDecls p) h = .ok () h₁)
    (hrun' : registerExceptions file (exceptionDecls p') h = .ok () h₁') (t : ExceptionType) :
    h₁'.contains t.name = h₁.contains t.name ∧ h₁'.parentOf? t = h₁.parentOf? t := by
  obtain ⟨added, hentries, hadded⟩ := registerExceptions_ok hrun
  obtain ⟨added', hentries', hadded'⟩ := registerExceptions_ok hrun'
  apply Hierarchy.same_types_of_perm (grown_of_registerExceptions hordered hrun).ordered
  rw [hentries, hentries']
  exact ((hadded.trans (entries_perm hperm)).trans hadded'.symm).append_right h.entries

end Registering

namespace Context

/-- A function or a class has a node by itself, outside of any scope. -/
inductive ResolvesDefinition (c : Context) : Item → Node → Prop
  | func {f : FuncDecl} {info : Callable} {n : Node}
      (hinfo : c.declarations.function? f.name = some info)
      (hfunction : c.ResolvesFunction [] .initial info f.params f.body f.extent n) :
      ResolvesDefinition c (.func f) n
  | classDecl {k : ClassDecl} {n : Node} (hclass : c.ResolvesClass [] .initial k n) :
      ResolvesDefinition c (.classDecl k) n

variable {c c' : Context}

theorem ResolvesDefinition.unique {item : Item} {n n' : Node} (h : c.ResolvesDefinition item n)
    (h' : c.ResolvesDefinition item n') : n = n' := by
  cases h with
  | func hinfo hfunction =>
    cases h' with
    | func hinfo' hfunction' =>
      cases hinfo.symm.trans hinfo'
      cases hfunction.run.symm.trans hfunction'.run
      rfl
  | classDecl hclass =>
    cases h' with
    | classDecl hclass' =>
      cases hclass.run.symm.trans hclass'.run
      rfl

/-- In a context that agrees, the same item elsewhere in the text has the same node. -/
theorem ResolvesDefinition.alike (h : c.Agrees c') {item item' : Item} {n : Node}
    (hitem : c.ResolvesDefinition item n) (heq : item.unplaced = item'.unplaced) :
    ∃ n', c'.ResolvesDefinition item' n' ∧ n.unplaced = n'.unplaced := by
  have halike : Alike c c' [] [] .initial .initial := ⟨h, rfl, rfl⟩
  cases hitem with
  | func hinfo hfunction =>
    cases item' <;> simp only [Item.unplaced, reduceCtorEq, Item.func.injEq] at heq
    obtain ⟨hname, hparams, hbody⟩ := FuncDecl.eq_of_unplaced heq
    obtain ⟨info', hinfo', hview⟩ := exists_of_map_eq (h.declarations.function? _) hinfo
    obtain ⟨n', hfunction', hn⟩ := hfunction.alike halike hview hbody _
    rw [hname] at hinfo'
    rw [hparams] at hfunction'
    exact ⟨n', .func hinfo' hfunction', hn⟩
  | classDecl hclass =>
    cases item' <;> simp only [Item.unplaced, reduceCtorEq, Item.classDecl.injEq] at heq
    obtain ⟨n', hclass', hn⟩ := hclass.alike halike _ heq
    exact ⟨n', .classDecl hclass', hn⟩

theorem ResolvesDefinition.congr (h : c.Agrees c') {item item' : Item} {n n' : Node}
    (hitem : c.ResolvesDefinition item n) (hitem' : c'.ResolvesDefinition item' n')
    (heq : item.unplaced = item'.unplaced) : n.unplaced = n'.unplaced := by
  obtain ⟨m, hm, hn⟩ := hitem.alike h heq
  rw [hn, hm.unique hitem']

/-- In all contexts that agree with a given one, the node of an item only depends on the item. -/
theorem exists_node (c : Context) :
    ∃ node : Item → Node, ∀ c', c.Agrees c' → ∀ item n, c'.ResolvesDefinition item n →
      node item.unplaced = n.unplaced := by
  have hview : ∀ view : Item, ∃ m : Node, ∀ c', c.Agrees c' → ∀ item n,
      c'.ResolvesDefinition item n → item.unplaced = view → m = n.unplaced := by
    intro view
    by_cases hdefined : ∃ item n, c.ResolvesDefinition item n ∧ item.unplaced = view
    · obtain ⟨item, n, hn, rfl⟩ := hdefined
      refine ⟨n.unplaced, fun c' hagrees item' n' hn' heq => ?_⟩
      exact hn.congr hagrees hn' heq.symm
    · refine ⟨.absent, fun c' hagrees item n hn heq => absurd ?_ hdefined⟩
      obtain ⟨m, hm, -⟩ := hn.alike hagrees.symm rfl
      exact ⟨item, m, hm, heq⟩
  choose node hnode using hview
  exact ⟨node, fun c' hagrees item n hn => hnode _ c' hagrees item n hn rfl⟩

/-- The nodes of declarations are those that each of them has by itself. -/
theorem ResolvesItems.definitions {items : List Item} {ns : List Node} {env : Environment}
    (hitems : ∀ item ∈ items, item.isDeclaration = true)
    (h : c.ResolvesItems .initial items ns env) :
    List.Forall₂ c.ResolvesDefinition (items.filter Item.isDefinition) ns := by
  induction items generalizing ns with
  | nil =>
    cases h
    exact .nil
  | cons item items ih =>
    obtain ⟨hitem, hrest⟩ := List.forall_mem_cons.mp hitems
    cases h with
    | exception hlater => exact ih hrest hlater
    | func hinfo hfirst hlater => exact .cons (.func hinfo hfirst) (ih hrest hlater)
    | classDecl hfirst hlater => exact .cons (.classDecl hfirst) (ih hrest hlater)
    | stmt _ _ => cases hitem

theorem ResolvesItems.exists_definition {items : List Item} {ns : List Node} {env : Environment}
    (hitems : ∀ item ∈ items, item.isDeclaration = true)
    (h : c.ResolvesItems .initial items ns env) {item : Item} (hitem : item ∈ items)
    (hdefinition : item.isDefinition = true) : ∃ n, c.ResolvesDefinition item n := by
  obtain ⟨hlength, hnodes⟩ := List.forall₂_iff_get.mp (h.definitions hitems)
  obtain ⟨i, hi, hget⟩ := List.mem_iff_getElem.mp (List.mem_filter.mpr ⟨hitem, hdefinition⟩)
  have hn := hnodes i hi (hlength ▸ hi)
  rw [List.get_eq_getElem, hget] at hn
  exact ⟨_, hn⟩

theorem map_unplaced_of_definitions {node : Item → Node}
    (hnode : ∀ item n, c.ResolvesDefinition item n → node item.unplaced = n.unplaced)
    {items : List Item} {ns : List Node} (h : List.Forall₂ c.ResolvesDefinition items ns) :
    ns.map Node.unplaced = items.map fun item => node item.unplaced := by
  induction h with
  | nil => rfl
  | cons hfirst _ ih => rw [List.map_cons, List.map_cons, hnode _ _ hfirst, ih]

theorem exists_resolvesItems {items : List Item}
    (hitems : ∀ item ∈ items, item.isDeclaration = true)
    (hnodes : ∀ item ∈ items, item.isDefinition = true → ∃ n, c.ResolvesDefinition item n) :
    ∃ ns, c.ResolvesItems .initial items ns .initial := by
  induction items with
  | nil => exact ⟨[], .nil⟩
  | cons item items ih =>
    obtain ⟨hitem, hrest⟩ := List.forall_mem_cons.mp hitems
    obtain ⟨hfirst, hnodes⟩ := List.forall_mem_cons.mp hnodes
    obtain ⟨ns, hns⟩ := ih hrest hnodes
    cases item with
    | stmt _ => cases hitem
    | exception _ => exact ⟨ns, .exception hns⟩
    | func f =>
      obtain ⟨n, hn⟩ := hfirst rfl
      cases hn with
      | func hinfo hfunction => exact ⟨n :: ns, .func hinfo hfunction hns⟩
    | classDecl k =>
      obtain ⟨n, hn⟩ := hfirst rfl
      cases hn with
      | classDecl hclass => exact ⟨n :: ns, .classDecl hclass hns⟩

end Context

section Programs

variable {file : Option String} {h : Hierarchy} {s s' : Site} {p p' : Program}

theorem sameDeclarations_of_reordered (hsites : s.Agrees s') (hperm : p.Reordered p') :
    SameDeclarations (declarationsOf s p) (declarationsOf s' p') := by
  have hview : ∀ (s : Site) (p : Program), s.Agrees s' →
      (declarationsOf s p).map Declaration.unplaced =
        (p.items.map Item.unplaced).flatMap fun i =>
          (itemDeclarations s' i).map Declaration.unplaced := by
    intro s p hs
    rw [declarationsOf, List.map_flatMap, List.flatMap_map]
    simp only [hs.itemDeclarations]
  rw [SameDeclarations, hview s p hsites, hview s' p' fun _ => rfl]
  exact hperm.flatMap_right _

/-- If the names of the one program can be resolved, so can those of the other. -/
theorem resolveProgram_reordered (hsites : s.Agrees s') (hperm : p.Reordered p')
    (hp : ∀ item ∈ p.items, item.isDeclaration = true) (hfree : p'.InnerNamesFree)
    {program : TypedProgram} (hresolve : resolveProgram s p = .ok program) :
    ∃ program', resolveProgram s' p' = .ok program' := by
  obtain ⟨hd, ho, ⟨body, span, env, hbody, -⟩, -⟩ := resolveProgram_ok hresolve
  have hsame := sameDeclarations_of_reordered hsites hperm
  obtain ⟨hnames, -, hreadable⟩ := Declarations.ofProgram_ok_iff.mp ⟨_, hd⟩
  have hnameable := hsame.nameable hnames
  obtain ⟨d', hd'⟩ := Declarations.ofProgram_ok_iff.mpr
    ⟨hnameable, (classNamesFree_iff hnameable).mpr hfree, hsame.readable hreadable⟩
  have hagrees := Declarations.agrees_of_sameDeclarations hd hd' hsame
  have hclasses := Declarations.classes_perm hd hd' hsame
  obtain ⟨o', ho'⟩ : ∃ o', d'.overrides s' = .ok o' :=
    Declarations.overrides_succeeds hagrees hclasses ho
  have hcontexts : Context.Agrees ⟨s, program.declarations⟩ ⟨s', d'⟩ := ⟨hsites, hagrees⟩
  obtain ⟨body', hbody'⟩ : ∃ body',
      Context.ResolvesItems ⟨s', d'⟩ .initial p'.items body' .initial := by
    apply Context.exists_resolvesItems (hperm.isDeclaration hp)
    intro item' hitem' hdefinition'
    obtain ⟨item, hitem, hitems⟩ := hperm.symm.exists_item hitem'
    have hdefinition : item.isDefinition = true := by
      rw [← Item.isDefinition_unplaced, hitems, Item.isDefinition_unplaced]
      exact hdefinition'
    obtain ⟨n, hn⟩ := hbody.exists_definition hp hitem hdefinition
    obtain ⟨n', hn', -⟩ := hn.alike hcontexts hitems
    exact ⟨n', hn'⟩
  unfold resolveProgram
  rw [hd']
  exact ⟨_, (bind_of_ok ho' _).trans (by rw [hbody'.run]; rfl)⟩

theorem typeProgram_reordered (hordered : Ordered h.entries) (hperm : p.Reordered p')
    (hp : ∀ item ∈ p.items, item.isDeclaration = true) (hfree : p'.InnerNamesFree)
    (htyped : ∃ program h₁, typeProgram file p h = .ok program h₁) :
    ∃ program' h₁', typeProgram file p' h = .ok program' h₁' := by
  obtain ⟨program, h₁, htyped⟩ := htyped
  obtain ⟨hregister, hresolve⟩ := typeProgram_inv htyped
  obtain ⟨h₁', hregister'⟩ := registerExceptions_reordered hordered hperm hregister
  have hsites : Site.Agrees ⟨file, h₁⟩ ⟨file, h₁'⟩ := fun name =>
    (same_types_of_registered hordered hperm hregister hregister' ⟨name⟩).1
  obtain ⟨program', hresolve'⟩ := resolveProgram_reordered hsites hperm hp hfree hresolve
  refine ⟨program', h₁', ?_⟩
  rw [typeProgram_eq, hregister']
  simp only [hresolve']

theorem innerNamesFree_of_typeProgram {program : TypedProgram} {h₁ : Hierarchy}
    (htyped : typeProgram file p h = .ok program h₁) : p.InnerNamesFree := by
  have hd := (resolveProgram_ok (typeProgram_inv htyped).2).1
  obtain ⟨hnameable, hfree, -⟩ := Declarations.ofProgram_ok_iff.mp ⟨_, hd⟩
  exact (classNamesFree_iff hnameable).mp hfree

end Programs

end Typing

/-- Both programs are typed to the same, apart from the order of their items and from places: the
same types with the same parents, the same symbols, the same overridden symbols for each of them,
and a node that only depends on the item for each item that has one. -/
structure SameProgram (p p' : Program) (program program' : TypedProgram) : Prop where
  types : ∀ t : ExceptionType,
    program'.hierarchy.contains t.name = program.hierarchy.contains t.name ∧
      program'.hierarchy.parentOf? t = program.hierarchy.parentOf? t
  symbols : (program.declarations.symbols.map Symbol.unplaced).Perm
    (program'.declarations.symbols.map Symbol.unplaced)
  overrides : ∀ symbol, (program.overrides.overridden symbol).map Symbol.unplaced =
    (program'.overrides.overridden symbol).map Symbol.unplaced
  nodes : ∃ node : Item → Node,
    program.unit.unplaced =
        .unit ((p.items.filter Item.isDefinition).map fun item => node item.unplaced) {} ∧
      program'.unit.unplaced =
        .unit ((p'.items.filter Item.isDefinition).map fun item => node item.unplaced) {}

namespace Typing

theorem sameProgram_of_resolveProgram {s s' : Site} {p p' : Program}
    {program program' : TypedProgram}
    (htypes : ∀ t : ExceptionType, s'.hierarchy.contains t.name = s.hierarchy.contains t.name ∧
      s'.hierarchy.parentOf? t = s.hierarchy.parentOf? t)
    (hperm : p.Reordered p') (hp : ∀ item ∈ p.items, item.isDeclaration = true)
    (hresolve : resolveProgram s p = .ok program)
    (hresolve' : resolveProgram s' p' = .ok program') : SameProgram p p' program program' := by
  obtain ⟨hd, ho, ⟨body, span, env, hbody, hunit⟩, hhierarchy⟩ := resolveProgram_ok hresolve
  obtain ⟨hd', ho', ⟨body', span', env', hbody', hunit'⟩, hhierarchy'⟩ :=
    resolveProgram_ok hresolve'
  have hsites : s.Agrees s' := fun name => (htypes ⟨name⟩).1
  have hsame := sameDeclarations_of_reordered hsites hperm
  have hagrees := Declarations.agrees_of_sameDeclarations hd hd' hsame
  have hcontexts : Context.Agrees ⟨s, program.declarations⟩ ⟨s', program'.declarations⟩ :=
    ⟨hsites, hagrees⟩
  constructor
  case types =>
    rw [hhierarchy, hhierarchy']
    exact htypes
  case symbols =>
    rw [(Declarations.ofProgram_ok hd).1, (Declarations.ofProgram_ok hd').1]
    exact hsame.symbols
  case overrides =>
    exact Declarations.overridden_congr hagrees (Declarations.classes_perm hd hd' hsame)
      (Declarations.ofProgram_unambiguous hd) (Declarations.ofProgram_unambiguous hd') ho ho'
  case nodes =>
    obtain ⟨node, hnode⟩ := Context.exists_node ⟨s, program.declarations⟩
    have hdefinitions := hbody.definitions hp
    have hdefinitions' := hbody'.definitions (hperm.isDeclaration hp)
    refine ⟨node, ?_, ?_⟩
    · rw [hunit, Node.unplaced, Node.unplacedAll_eq,
        Context.map_unplaced_of_definitions (hnode _ (.refl _)) hdefinitions]
    · rw [hunit', Node.unplaced, Node.unplacedAll_eq,
        Context.map_unplaced_of_definitions (hnode _ hcontexts) hdefinitions']

end Typing

/-- Let a program consist of declarations only, let another one have the same items in some order,
and take a table after whatever was done with it. A program is only typed against the table if no
function in front of a class has the name of a class inside it. If this is so in both programs, one
of them is typed if and only if the other one is. Whenever both are typed, they are typed to the
same. -/
theorem reordered_programs_agree (before : List Hierarchy.Use) {h : Hierarchy}
    (hreached : Hierarchy.empty.useAll before = h) (file : Option String) {p p' : Program}
    (hdeclarations : ∀ item ∈ p.items, item.isDeclaration = true) (hperm : p.Reordered p') :
    ((∃ program h₁, Typing.typeProgram file p h = .ok program h₁) → p.InnerNamesFree) ∧
    (p.InnerNamesFree → p'.InnerNamesFree →
      ((∃ program h₁, Typing.typeProgram file p h = .ok program h₁) ↔
        ∃ program' h₁', Typing.typeProgram file p' h = .ok program' h₁')) ∧
    ∀ program h₁ program' h₁', Typing.typeProgram file p h = .ok program h₁ →
      Typing.typeProgram file p' h = .ok program' h₁' →
        program.hierarchy = h₁ ∧ program'.hierarchy = h₁' ∧ SameProgram p p' program program' := by
  have hordered : Ordered h.entries := by
    rw [← hreached]
    exact (Hierarchy.grown_useAll .nil before).ordered
  refine ⟨?_, ?_, ?_⟩
  · rintro ⟨program, h₁, htyped⟩
    exact Typing.innerNamesFree_of_typeProgram htyped
  · intro hfree hfree'
    have hdeclarations' := hperm.isDeclaration hdeclarations
    constructor
    · exact Typing.typeProgram_reordered hordered hperm hdeclarations hfree'
    · exact Typing.typeProgram_reordered hordered hperm.symm hdeclarations' hfree
  · intro program h₁ program' h₁' htyped htyped'
    obtain ⟨hregister, hresolve⟩ := Typing.typeProgram_inv htyped
    obtain ⟨hregister', hresolve'⟩ := Typing.typeProgram_inv htyped'
    obtain ⟨-, -, -, hhierarchy⟩ := Typing.resolveProgram_ok hresolve
    obtain ⟨-, -, -, hhierarchy'⟩ := Typing.resolveProgram_ok hresolve'
    refine ⟨hhierarchy, hhierarchy', ?_⟩
    exact Typing.sameProgram_of_resolveProgram
      (Typing.same_types_of_registered hordered hperm hregister hregister') hperm hdeclarations
      hresolve hresolve'

-- A class inside another one goes together with a function of its name, unless it stands behind it.
example :
    let x : Extent := ⟨⟨1, 1⟩, ⟨1, 1⟩⟩
    let outer : Item := .classDecl (.mk [] "A" [] [] [] [.classDecl (.mk [] "B" [] [] [] [] x)] x)
    let function : Item := .func ⟨[], "B", [], none, .mk [] x, x, by decide⟩
    Typing.typedAs (fun _ => true) (Typing.typeProgram none ⟨[outer, function], none⟩ .builtin) ∧
      ¬ Typing.typedAs (fun _ => true)
        (Typing.typeProgram none ⟨[function, outer], none⟩ .builtin) := by
  decide +kernel

/-- The symbol of the first name overrides exactly those of the other names. -/
def TypedProgram.links (program : TypedProgram) (name : String) (overridden : List String) : Bool :=
  program.declarations.symbols.any fun m =>
    m.qualifiedName = name ∧ (program.overrides.overridden m).map (·.qualifiedName) = overridden

/-- A class with another one inside, a function behind it that has the name of the inner one, and a
type whose parent is registered elsewhere. -/
def socketItems (x : Extent) : List Item :=
  [.classDecl (.mk [] "Socket" [] [] ["Stream"]
      [.classDecl (.mk [] "Open" [] [] [] [] x),
        .func ⟨[⟨"throws", ["Refused"], [], x⟩], "read", [], none,
          .mk [.raise (.new "Refused" [] x) x] x, x, by decide⟩] x),
    .func ⟨[], "Open", [], none, .mk [] x, x, by decide⟩,
    .exception ⟨"Refused", some "Late", x⟩]

def streamItems (x : Extent) : List Item :=
  [.exception ⟨"Late", some "Timeout", x⟩,
    .classDecl (.mk [] "Stream" [] [] []
      [.func ⟨[⟨"throws", ["Late"], [], x⟩], "read", [], none,
        .mk [.raise (.new "Late" [] x) x] x, x, by decide⟩] x)]

def socketsFirst : Program :=
  ⟨socketItems ⟨⟨1, 1⟩, ⟨6, 2⟩⟩ ++ streamItems ⟨⟨7, 1⟩, ⟨9, 5⟩⟩, none⟩

def streamsFirst : Program :=
  ⟨streamItems ⟨⟨1, 3⟩, ⟨3, 7⟩⟩ ++ socketItems ⟨⟨4, 1⟩, ⟨4, 80⟩⟩, none⟩

theorem reordered_programs_agree_of_sockets :
    ∃ (program program' : TypedProgram) (h₁ h₁' : Hierarchy) (m : Symbol),
      Typing.typeProgram none socketsFirst (Hierarchy.empty.useAll libraryUses) = .ok program h₁ ∧
      Typing.typeProgram none streamsFirst (Hierarchy.empty.useAll libraryUses) = .ok program' h₁' ∧
      SameProgram socketsFirst streamsFirst program program' ∧
      h₁'.parentOf? ⟨"Refused"⟩ = some ⟨"Late"⟩ ∧ m.qualifiedName = "Socket.read" ∧
      (program'.overrides.overridden m).map (·.qualifiedName) = ["Stream.read"] := by
  have hdeclarations : ∀ item ∈ socketsFirst.items, item.isDeclaration = true := by decide
  have hperm : socketsFirst.Reordered streamsFirst := by
    simp only [Program.Reordered, socketsFirst, streamsFirst, List.map_append]
    exact List.perm_append_comm
  have hfree : streamsFirst.InnerNamesFree := by
    simp [Program.InnerNamesFree, streamsFirst, streamItems, socketItems]
  obtain ⟨hnames, hboth, hsame⟩ :=
    reordered_programs_agree libraryUses rfl none hdeclarations hperm
  have hlinks : Typing.typedAs
      (fun program => program.links "Socket.read" ["Stream.read"] &&
        program.hierarchy.parentOf? ⟨"Refused"⟩ = some ⟨"Late"⟩)
      (Typing.typeProgram none socketsFirst (Hierarchy.empty.useAll libraryUses)) = true := by
    decide +kernel
  cases htyped : Typing.typeProgram none socketsFirst (Hierarchy.empty.useAll libraryUses) with
  | error e h₁ =>
    rw [htyped] at hlinks
    cases hlinks
  | ok program h₁ =>
    rw [htyped] at hlinks
    simp only [Typing.typedAs, TypedProgram.links, Bool.and_eq_true, List.any_eq_true,
      decide_eq_true_eq] at hlinks
    obtain ⟨⟨m, -, hname, hoverridden⟩, hparent⟩ := hlinks
    obtain ⟨program', h₁', htyped'⟩ :=
      (hboth (hnames ⟨program, h₁, htyped⟩) hfree).mp ⟨program, h₁, htyped⟩
    obtain ⟨-, rfl, hprograms⟩ := hsame program h₁ program' h₁' htyped htyped'
    refine ⟨program, program', h₁, _, m, rfl, htyped', hprograms, ?_, hname, ?_⟩
    · rw [(hprograms.types ⟨"Refused"⟩).2, hparent]
    · have hview := congrArg (List.map Symbol.qualifiedName) (hprograms.overrides m)
      rw [List.map_map, List.map_map] at hview
      exact hview.symm.trans hoverridden

end CheckedExceptions
