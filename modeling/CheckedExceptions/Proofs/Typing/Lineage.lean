import CheckedExceptions.Proofs.Overrides
import CheckedExceptions.Proofs.Typing.Distinct
import Mathlib.Data.List.Pairwise
import Mathlib.Logic.Relation

/-!
The ancestors of a class and the table of overridden methods. The search for ancestors never waits
for a class twice, so its steps are enough to come to every class that can be reached over parents,
also where classes extend each other in a circle. A method is then found in the table with exactly
the methods of the same name in these ancestors, in the order of the search.
-/
namespace CheckedExceptions.Typing

open Relation (TransGen)

namespace Declarations

/-- The first class names the second one as a parent. -/
def Extends (d : Declarations) (c b : ClassEntry) : Prop := ∃ p ∈ c.parents, d.class? p = some b

section Search

variable {s : Site} {d : Declarations} {c b : ClassEntry} {seen seen' parents : List String}
  {waiting found ancestors : List ClassEntry} {steps : Nat}

theorem Extends.mem_classes (h : d.Extends c b) : b ∈ d.classes := by
  obtain ⟨p, -, hp⟩ := h
  exact mem_classes_of_class? hp

/-- Classes that are found under some name differ by their own names. -/
theorem class?_inj {p q : String} (hb : d.class? p = some b) (hc : d.class? q = some c)
    (hname : b.name = c.name) : b = c := by
  rw [name_of_class? hb, name_of_class? hc] at hname
  rw [hname, hc] at hb
  exact (Option.some.inj hb).symm

theorem mem_classes_of_transGen (h : TransGen d.Extends c b) : b ∈ d.classes := by
  cases h with
  | single h => exact h.mem_classes
  | tail _ h => exact h.mem_classes

/-- The number of classes that have not been seen. -/
def unseen (d : Declarations) (seen : List String) : Nat := d.classes.countP (·.name ∉ seen)

theorem unseen_anti (h : seen ⊆ seen') : d.unseen seen' ≤ d.unseen seen := by
  apply List.countP_mono_left
  intro c _ hc
  have hc' : c.name ∉ seen' := by simpa using hc
  simpa using fun hmem => hc' (h hmem)

theorem unseen_cons (hb : b ∈ d.classes) (hnew : b.name ∉ seen) :
    d.unseen (b.name :: seen) + 1 ≤ d.unseen seen := by
  obtain ⟨before, after, hsplit⟩ := List.append_of_mem hb
  have hle : ∀ l : List ClassEntry,
      l.countP (·.name ∉ b.name :: seen) ≤ l.countP (·.name ∉ seen) := by
    intro l
    apply List.countP_mono_left
    intro c _ hc
    simp only [List.mem_cons, not_or, decide_eq_true_eq] at hc ⊢
    exact hc.2
  have hbefore := hle before
  have hafter := hle after
  simp only [unseen, hsplit, List.countP_append, List.countP_cons, List.mem_cons, true_or,
    not_true_eq_false, decide_false, hnew, not_false_eq_true, decide_true]
  simp only [List.mem_cons] at hbefore hafter
  simp only [Bool.false_eq_true, ↓reduceIte]
  omega

/-- The classes found among some parents: those that were not seen before, each once. -/
structure UnseenAmong (d : Declarations) (seen parents : List String) (found : List ClassEntry) :
    Prop where
  new : ∀ b ∈ found, b.name ∉ seen
  parent : ∀ b ∈ found, ∃ p ∈ parents, d.class? p = some b
  distinct : (found.map (·.name)).Nodup
  complete : ∀ p ∈ parents, ∀ b, d.class? p = some b → b.name ∈ seen ∨ b ∈ found
  budget : d.unseen (found.map (·.name) ++ seen) + found.length ≤ d.unseen seen

namespace UnseenAmong

variable {p : String} {parent : ClassEntry} {others : List ClassEntry}

theorem nil (seen : List String) : UnseenAmong d seen [] [] :=
  ⟨List.forall_mem_nil _, List.forall_mem_nil _, List.nodup_nil, List.forall_mem_nil _,
    Nat.le_refl _⟩

/-- A parent that was seen before adds nothing. -/
theorem cons_seen (hclass : d.class? p = some parent) (hseen : parent.name ∈ seen)
    (h : UnseenAmong d seen parents found) : UnseenAmong d seen (p :: parents) found := by
  refine ⟨h.new, ?_, h.distinct, ?_, h.budget⟩
  · intro b hb
    obtain ⟨q, hq, hqb⟩ := h.parent b hb
    exact ⟨q, List.mem_cons_of_mem p hq, hqb⟩
  · rw [List.forall_mem_cons]
    refine ⟨fun b hb => Or.inl ?_, h.complete⟩
    rw [hclass] at hb
    cases hb
    exact hseen

/-- Any other parent is found, and counts as seen for the parents behind it. -/
theorem cons_new (hclass : d.class? p = some parent) (hseen : parent.name ∉ seen)
    (h : UnseenAmong d (parent.name :: seen) parents others) :
    UnseenAmong d seen (p :: parents) (parent :: others) := by
  refine ⟨?_, ?_, ?_, ?_, ?_⟩
  · rw [List.forall_mem_cons]
    exact ⟨hseen, fun b hb hmem => h.new b hb (List.mem_cons_of_mem _ hmem)⟩
  · rw [List.forall_mem_cons]
    refine ⟨⟨p, List.mem_cons_self, hclass⟩, fun b hb => ?_⟩
    obtain ⟨q, hq, hqb⟩ := h.parent b hb
    exact ⟨q, List.mem_cons_of_mem p hq, hqb⟩
  · refine List.nodup_cons.mpr ⟨fun hmem => ?_, h.distinct⟩
    obtain ⟨b, hb, hname⟩ := List.mem_map.mp hmem
    exact h.new b hb (hname ▸ List.mem_cons_self)
  · rw [List.forall_mem_cons]
    constructor
    · intro b hb
      rw [hclass] at hb
      cases hb
      exact Or.inr List.mem_cons_self
    · intro q hq b hb
      rcases h.complete q hq b hb with hmem | hmem
      · rcases List.mem_cons.mp hmem with hname | hmem
        · exact Or.inr (class?_inj hb hclass hname ▸ List.mem_cons_self)
        · exact Or.inl hmem
      · exact Or.inr (List.mem_cons_of_mem _ hmem)
  · have hone := unseen_cons (mem_classes_of_class? hclass) hseen
    have hperm : d.unseen ((parent :: others).map (·.name) ++ seen) ≤
        d.unseen (others.map (·.name) ++ parent.name :: seen) :=
      unseen_anti List.perm_middle.subset
    have hbudget := h.budget
    rw [List.length_cons]
    omega

end UnseenAmong

theorem unseenParents_ok (h : unseenParents s d c seen parents = .ok found) :
    UnseenAmong d seen parents found := by
  induction parents generalizing seen found with
  | nil =>
    cases h
    exact .nil seen
  | cons p ps ih =>
    rw [unseenParents] at h
    cases hclass : d.class? p with
    | none =>
      rw [hclass] at h
      cases h
    | some parent =>
      simp only [hclass] at h
      by_cases hseen : parent.name ∈ seen
      · rw [if_pos hseen] at h
        exact .cons_seen hclass hseen (ih h)
      · rw [if_neg hseen] at h
        obtain ⟨others, hrest, h⟩ := ok_of_bind h
        cases h
        exact .cons_new hclass hseen (ih hrest)

/-- The outcome of a search from the classes that wait: classes reached from them over parents that
were not seen before, each once, and with each class all its parents. -/
structure Searched (d : Declarations) (waiting : List ClassEntry) (seen : List String)
    (found : List ClassEntry) : Prop where
  new : ∀ b ∈ found, b.name ∉ seen
  reached : ∀ b ∈ found, ∃ w ∈ waiting, TransGen d.Extends w b
  distinct : (found.map (·.name)).Nodup
  closed : ∀ w ∈ waiting ++ found, ∀ b, d.Extends w b → b.name ∈ seen ∨ b ∈ found

/-- One step of the search takes the first class that waits, and lets its new parents wait. -/
theorem Searched.step {found others : List ClassEntry} (hfound : UnseenAmong d seen c.parents found)
    (hothers : Searched d (waiting ++ found) (found.map (·.name) ++ seen) others) :
    Searched d (c :: waiting) seen (found ++ others) := by
  have hextends : ∀ b ∈ found, d.Extends c b := hfound.parent
  refine ⟨?_, ?_, ?_, ?_⟩
  · rw [List.forall_mem_append]
    exact ⟨hfound.new, fun b hb hmem => hothers.new b hb (List.mem_append_right _ hmem)⟩
  · rw [List.forall_mem_append]
    refine ⟨fun b hb => ⟨c, List.mem_cons_self, .single (hextends b hb)⟩, fun b hb => ?_⟩
    obtain ⟨w, hw, hpath⟩ := hothers.reached b hb
    rcases List.mem_append.mp hw with hw | hw
    · exact ⟨w, List.mem_cons_of_mem c hw, hpath⟩
    · exact ⟨c, List.mem_cons_self, .head (hextends w hw) hpath⟩
  · rw [List.map_append]
    refine List.nodup_append.mpr ⟨hfound.distinct, hothers.distinct, ?_⟩
    intro name hname name' hname' heq
    obtain ⟨b, hb, rfl⟩ := List.mem_map.mp hname'
    exact hothers.new b hb (List.mem_append_left _ (heq ▸ hname))
  · intro w hw b hb
    rcases List.mem_cons.mp hw with rfl | hw
    · obtain ⟨p, hp, hclass⟩ := hb
      exact (hfound.complete p hp b hclass).imp_right (List.mem_append_left _)
    · have hw' : w ∈ waiting ++ found ++ others := by
        rw [List.append_assoc]
        exact hw
      rcases hothers.closed w hw' b hb with hmem | hmem
      · rcases List.mem_append.mp hmem with hmem | hmem
        · obtain ⟨f, hf, hname⟩ := List.mem_map.mp hmem
          obtain ⟨p, -, hclass⟩ := hb
          obtain ⟨q, -, hclass'⟩ := hextends f hf
          exact Or.inr (List.mem_append_left _ (class?_inj hclass' hclass hname ▸ hf))
        · exact Or.inl hmem
      · exact Or.inr (List.mem_append_right _ hmem)

/-- As long as the steps are enough for all classes that wait or have not been seen, the search does
not stop early. -/
theorem search_ok (hsteps : waiting.length + d.unseen seen ≤ steps)
    (h : search s d steps waiting seen = .ok found) : Searched d waiting seen found := by
  induction steps generalizing waiting seen found with
  | zero =>
    have hwaiting : waiting = [] := List.length_eq_zero_iff.mp (by omega)
    subst hwaiting
    cases h
    exact ⟨List.forall_mem_nil _, List.forall_mem_nil _, List.nodup_nil, List.forall_mem_nil _⟩
  | succ steps ih =>
    cases waiting with
    | nil =>
      cases h
      exact ⟨List.forall_mem_nil _, List.forall_mem_nil _, List.nodup_nil, List.forall_mem_nil _⟩
    | cons c waiting =>
      rw [search] at h
      obtain ⟨new, hparents, h⟩ := ok_of_bind h
      obtain ⟨others, hrest, h⟩ := ok_of_bind h
      cases h
      have hnew := unseenParents_ok hparents
      have hbudget := hnew.budget
      refine .step hnew (ih ?_ hrest)
      rw [List.length_cons] at hsteps
      rw [List.length_append]
      omega

/-- The search for ancestors has enough steps. -/
theorem start_le_steps (d : Declarations) (c : ClassEntry) :
    [c].length + d.unseen [c.name] ≤ d.classes.length + 1 := by
  have hall : d.unseen [c.name] ≤ d.classes.length := List.countP_le_length
  rw [List.length_singleton]
  omega

theorem ancestors_searched (h : d.ancestors s c = .ok ancestors) :
    Searched d [c] [c.name] ancestors :=
  search_ok (start_le_steps d c) h

/-- The ancestors of a class are the other classes that are reached from it over parents. -/
theorem mem_ancestors (hnames : (d.classes.map (·.name)).Nodup) (hc : c ∈ d.classes)
    (h : d.ancestors s c = .ok ancestors) :
    b ∈ ancestors ↔ b ≠ c ∧ TransGen d.Extends c b := by
  have hsearched := ancestors_searched h
  constructor
  · intro hb
    obtain ⟨w, hw, hpath⟩ := hsearched.reached b hb
    rw [List.mem_singleton.mp hw] at hpath
    refine ⟨fun heq => hsearched.new b hb ?_, hpath⟩
    rw [heq]
    exact List.mem_singleton_self _
  · rintro ⟨hne, hpath⟩
    have hstep : ∀ w a, w = c ∨ w ∈ ancestors → d.Extends w a → a = c ∨ a ∈ ancestors := by
      intro w a hw hextends
      rcases hsearched.closed w (List.mem_cons.mpr hw) a hextends with hname | hmem
      · exact Or.inl (List.inj_on_of_nodup_map hnames hextends.mem_classes hc
          (List.mem_singleton.mp hname))
      · exact Or.inr hmem
    -- Along the path every class is the first one again or one of those found.
    have hall : b = c ∨ b ∈ ancestors := by
      clear hne
      induction hpath with
      | single hextends => exact hstep c _ (Or.inl rfl) hextends
      | tail _ hextends ih => exact hstep _ _ ih hextends
    exact hall.resolve_left hne

end Search

section Table

variable {s : Site} {d : Declarations} {o : Overrides}

/-- If an action has a result at every element of a list, these are the results over the list. -/
theorem mapM_ok {ε α β : Type} {f : α → Except ε β} {g : α → β} {l : List α} {bs : List β}
    (hg : ∀ a b, f a = .ok b → g a = b) (h : l.mapM f = .ok bs) :
    (∀ a ∈ l, f a = .ok (g a)) ∧ bs = l.map g := by
  induction l generalizing bs with
  | nil =>
    cases h
    exact ⟨List.forall_mem_nil _, rfl⟩
  | cons a l ih =>
    rw [List.mapM_cons] at h
    obtain ⟨b, ha, h⟩ := ok_of_bind h
    obtain ⟨rest, hl, h⟩ := ok_of_bind h
    cases h
    obtain ⟨hall, hrest⟩ := ih hl
    rw [List.forall_mem_cons, List.map_cons, hg a b ha, ← hrest]
    exact ⟨⟨ha, hall⟩, rfl⟩

theorem mapM_succeeds {ε α β : Type} {f : α → Except ε β} {l : List α}
    (h : ∀ a ∈ l, ∃ b, f a = .ok b) : ∃ bs, l.mapM f = .ok bs := by
  induction l with
  | nil => exact ⟨[], rfl⟩
  | cons a l ih =>
    obtain ⟨⟨b, hb⟩, hl⟩ := List.forall_mem_cons.mp h
    obtain ⟨bs, hbs⟩ := ih hl
    rw [List.mapM_cons, hb]
    exact ⟨b :: bs, bind_of_ok hbs _⟩

/-- The ancestors of a class, or none if a parent on the way is not declared. -/
def ancestorsOf (s : Site) (d : Declarations) (c : ClassEntry) : List ClassEntry :=
  (d.ancestors s c).toOption.getD []

/-- The pairs that the entry of a method adds to the table. -/
def links (s : Site) (d : Declarations) (e : ClassEntry × String × Callable) :
    List (Symbol × Symbol) :=
  ((d.ancestorsOf s e.1).filterMap (·.method? e.2.1)).map fun n => (e.2.2.symbol, n.symbol)

theorem overridePairs_ok {c : ClassEntry} {pairs : List (Symbol × Symbol)}
    (h : d.overridePairs s c = .ok pairs) :
    d.ancestors s c = .ok (d.ancestorsOf s c) ∧
      (c.methods.map (c, ·)).flatMap (d.links s) = pairs := by
  obtain ⟨found, hfound, h⟩ := ok_of_bind h
  cases h
  have hancestors : d.ancestorsOf s c = found := by
    rw [ancestorsOf, hfound]
    rfl
  rw [List.flatMap_map]
  simp only [links, hancestors, hfound, true_and]

/-- The table is filled with the pairs of all methods, class by class. -/
theorem overrides_ok (h : d.overrides s = .ok o) :
    (∀ c ∈ d.classes, d.ancestors s c = .ok (d.ancestorsOf s c)) ∧
      o = (d.methodEntries.flatMap (d.links s)).foldl
        (fun (o : Overrides) (m, overridden) => o.add m overridden) {} := by
  obtain ⟨pairs, hpairs, h⟩ := ok_of_bind h
  cases h
  obtain ⟨hall, hflat⟩ := mapM_ok (fun c ps hps => (overridePairs_ok hps).2) hpairs
  refine ⟨fun c hc => (overridePairs_ok (hall c hc)).1, ?_⟩
  rw [hflat, methodEntries, List.flatMap_assoc, List.flatMap_def]

theorem overrides_of_ancestors
    (h : ∀ c ∈ d.classes, ∃ ancestors, d.ancestors s c = .ok ancestors) :
    ∃ o, d.overrides s = .ok o := by
  have hpairs : ∀ c ∈ d.classes, ∃ pairs, d.overridePairs s c = .ok pairs := by
    intro c hc
    obtain ⟨ancestors, hancestors⟩ := h c hc
    exact ⟨_, bind_of_ok hancestors _⟩
  obtain ⟨pairs, hmapM⟩ := mapM_succeeds hpairs
  exact ⟨_, bind_of_ok hmapM _⟩

/-- The table only holds declared symbols. -/
theorem overridden_declared (hd : d.Closed) (ho : d.overrides s = .ok o) {m x : Symbol}
    (hx : x ∈ o.overridden m) : x ∈ d.symbols := by
  obtain ⟨hancestors, rfl⟩ := overrides_ok ho
  rcases Overrides.mem_overridden_foldl_add hx with hx | hx
  · cases hx
  · obtain ⟨pair, hpair, rfl⟩ := List.mem_map.mp hx
    obtain ⟨⟨c, name, k⟩, hentry, hlink⟩ := List.mem_flatMap.mp hpair
    obtain ⟨n, hn, rfl⟩ := List.mem_map.mp hlink
    obtain ⟨b, hb, hmethod⟩ := List.mem_filterMap.mp hn
    have hc := hancestors c (mem_methodEntries.mp hentry).1
    have hclass := (search_safe s d _ _ _).of_ok hc b hb
    exact symbol_of_method? (hd.classes b hclass) hmethod

/-- Of all pairs, those of a method are the ones of its own entry. -/
theorem linked_links (hd : d.Unambiguous) {e : ClassEntry × String × Callable}
    (he : e ∈ d.methodEntries) :
    Overrides.linked e.2.2.symbol (d.methodEntries.flatMap (d.links s)) =
      ((d.ancestorsOf s e.1).filterMap (·.method? e.2.1)).map (·.symbol) := by
  obtain ⟨before, after, hsplit⟩ := List.append_of_mem he
  have hnodup := hd.methods
  rw [hsplit, List.map_append, List.map_cons, List.nodup_middle, List.nodup_cons,
    ← List.map_append] at hnodup
  have hother : ∀ e' ∈ before ++ after, Overrides.linked e.2.2.symbol (d.links s e') = [] := by
    intro e' he'
    rw [links, Overrides.linked_map, if_neg]
    intro hidentity
    apply hnodup.1
    exact List.mem_map.mpr ⟨e', he', congrArg Symbol.Identity.qualifiedName hidentity⟩
  obtain ⟨hbefore, hafter⟩ := List.forall_mem_append.mp hother
  rw [Overrides.linked_flatMap, hsplit, List.flatMap_append, List.flatMap_cons,
    List.flatMap_eq_nil_iff.mpr hbefore, List.flatMap_eq_nil_iff.mpr hafter, links,
    Overrides.linked_map, if_pos rfl, List.append_nil, List.nil_append]

variable {c : ClassEntry} {name : String} {m : Callable}

/-- Methods of different ancestors are different. -/
theorem nodup_ancestor_methods (hd : d.Unambiguous) (hc : c ∈ d.classes)
    (h : d.ancestors s c = .ok (d.ancestorsOf s c)) (name : String) :
    (((d.ancestorsOf s c).filterMap (·.method? name)).map (·.symbol.identity)).Nodup := by
  have hdistinct := (ancestors_searched h).distinct
  rw [List.Nodup, List.pairwise_map] at hdistinct
  rw [List.Nodup, List.pairwise_map, List.pairwise_filterMap]
  refine hdistinct.imp_of_mem ?_
  intro a b ha hb hne m hm n hn hidentity
  have hmem : ∀ {a : ClassEntry} {m : Callable}, a ∈ d.ancestorsOf s c → a.method? name = some m →
      (a, name, m) ∈ d.methodEntries := by
    intro a m ha hm
    have hclass := mem_classes_of_transGen ((mem_ancestors hd.classes hc h).mp ha).2
    exact mem_methodEntries.mpr ⟨hclass, mem_of_lookup hm⟩
  have hentry := hd.eq_of_name (hmem ha hm) (hmem hb hn)
    (congrArg Symbol.Identity.qualifiedName hidentity)
  exact hne (congrArg (·.1.name) hentry)

/-- A method overrides the methods of its name in the ancestors of its class, in their order. -/
theorem overridden_of_entry (hd : d.Unambiguous) (ho : d.overrides s = .ok o)
    {e : ClassEntry × String × Callable} (he : e ∈ d.methodEntries) :
    o.overridden e.2.2.symbol =
      ((d.ancestorsOf s e.1).filterMap (·.method? e.2.1)).map (·.symbol) := by
  obtain ⟨hancestors, rfl⟩ := overrides_ok ho
  have hclass := (mem_methodEntries.mp he).1
  have hlinked := linked_links (s := s) hd he
  have hnodup := nodup_ancestor_methods hd hclass (hancestors e.1 hclass) e.2.1
  rw [Overrides.overridden_foldl_add]
  · exact hlinked
  · rw [hlinked]
    simpa [Overrides.overridden, Function.comp_def] using hnodup

theorem overridden_of_method (hd : d.Unambiguous) (ho : d.overrides s = .ok o)
    (hc : c ∈ d.classes) (hm : c.method? name = some m) :
    o.overridden m.symbol = ((d.ancestorsOf s c).filterMap (·.method? name)).map (·.symbol) :=
  overridden_of_entry hd ho (mem_methodEntries.mpr ⟨hc, mem_of_lookup hm⟩)

/-- What is no method of a class overrides nothing. -/
theorem overridden_eq_nil (ho : d.overrides s = .ok o) {x : Symbol}
    (hx : ∀ e ∈ d.methodEntries, e.2.2.symbol.identity ≠ x.identity) : o.overridden x = [] := by
  obtain ⟨-, rfl⟩ := overrides_ok ho
  have hlinked : Overrides.linked x (d.methodEntries.flatMap (d.links s)) = [] := by
    rw [Overrides.linked_flatMap, List.flatMap_eq_nil_iff]
    intro e he
    rw [links, Overrides.linked_map, if_neg (hx e he)]
  rw [Overrides.overridden_foldl_add]
  · exact hlinked
  · rw [hlinked]
    exact List.nodup_nil

theorem mem_overridden (hd : d.Unambiguous) (ho : d.overrides s = .ok o) (hc : c ∈ d.classes)
    (hm : c.method? name = some m) {x : Symbol} :
    x ∈ o.overridden m.symbol ↔
      ∃ b n, b ≠ c ∧ TransGen d.Extends c b ∧ b.method? name = some n ∧ n.symbol = x := by
  have hancestors := (overrides_ok ho).1 c hc
  rw [overridden_of_method hd ho hc hm, List.mem_map]
  constructor
  · rintro ⟨n, hn, rfl⟩
    obtain ⟨b, hb, hn⟩ := List.mem_filterMap.mp hn
    obtain ⟨hne, hpath⟩ := (mem_ancestors hd.classes hc hancestors).mp hb
    exact ⟨b, n, hne, hpath, hn, rfl⟩
  · rintro ⟨b, n, hne, hpath, hn, rfl⟩
    have hb := (mem_ancestors hd.classes hc hancestors).mpr ⟨hne, hpath⟩
    exact ⟨n, List.mem_filterMap.mpr ⟨b, hb, hn⟩, rfl⟩

end Table

end Declarations

end CheckedExceptions.Typing
