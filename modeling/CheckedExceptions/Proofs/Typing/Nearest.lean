import CheckedExceptions.Proofs.Typing.Lineage
import Mathlib.Order.Lattice.Nat

/-!
The order of the ancestors of a class. The search keeps its classes in a queue in which the number
of steps from the start never falls and never rises by more than one, and every class that has been
seen and is not in the queue has only seen parents. So a class that has not been seen is further
away than the first one in the queue, and the classes are found nearest first. The search fails just
in case it comes to a class with a parent that is not declared.
-/
namespace CheckedExceptions.Typing.Declarations

open Relation (TransGen ReflTransGen)

/-- From the first class to the second one in a number of steps, each to a parent. -/
inductive Path (d : Declarations) : Nat → ClassEntry → ClassEntry → Prop
  | nil (c : ClassEntry) : Path d 0 c c
  | concat {n : Nat} {a b c : ClassEntry} (hpath : Path d n a b) (hstep : d.Extends b c) :
      Path d (n + 1) a c

/-- The number of steps on a shortest path. -/
noncomputable def distance (d : Declarations) (c b : ClassEntry) : Nat := sInf {n | d.Path n c b}

section Paths

variable {d : Declarations} {c a b : ClassEntry} {n : Nat}

theorem exists_path (h : ReflTransGen d.Extends c b) : ∃ n, d.Path n c b := by
  induction h with
  | refl => exact ⟨0, .nil c⟩
  | tail _ hstep ih =>
    obtain ⟨n, hpath⟩ := ih
    exact ⟨n + 1, hpath.concat hstep⟩

theorem Path.reflTransGen (h : d.Path n c b) : ReflTransGen d.Extends c b := by
  induction h with
  | nil c => exact .refl
  | concat _ hstep ih => exact ih.tail hstep

theorem Path.distance_le (h : d.Path n c b) : d.distance c b ≤ n := Nat.sInf_le h

theorem path_distance (h : ReflTransGen d.Extends c b) : d.Path (d.distance c b) c b :=
  Nat.sInf_mem (exists_path h)

theorem distance_extends (h : ReflTransGen d.Extends c a) (hstep : d.Extends a b) :
    d.distance c b ≤ d.distance c a + 1 :=
  ((path_distance h).concat hstep).distance_le

/-- A path from a seen class to one that is not seen steps out of the seen ones somewhere. -/
theorem Path.exists_step_out {seen : List String} (h : d.Path n c b) (hc : c.name ∈ seen)
    (hb : b.name ∉ seen) :
    ∃ m < n, ∃ a b', d.Path m c a ∧ a.name ∈ seen ∧ d.Extends a b' ∧ b'.name ∉ seen := by
  induction h with
  | nil c => exact absurd hc hb
  | @concat n c a b hpath hstep ih =>
    by_cases ha : a.name ∈ seen
    · exact ⟨n, Nat.lt_succ_self n, a, b, hpath, ha, hstep, hb⟩
    · obtain ⟨m, hm, hout⟩ := ih hc ha
      exact ⟨m, Nat.lt_succ_of_lt hm, hout⟩

end Paths

/-- The state of a search from `root`: a queue of reached classes, nearest first and all about as
far away, and the names of the classes seen so far. -/
structure Queue (d : Declarations) (root : ClassEntry) (waiting : List ClassEntry)
    (seen : List String) : Prop where
  root_seen : root.name ∈ seen
  reached : ∀ w ∈ waiting, ReflTransGen d.Extends root w
  sorted : waiting.Pairwise fun a b => d.distance root a ≤ d.distance root b
  band : ∀ v ∈ waiting, ∀ w ∈ waiting, d.distance root w ≤ d.distance root v + 1
  closed : ∀ a, ReflTransGen d.Extends root a → a.name ∈ seen → a ∉ waiting →
    ∀ b, d.Extends a b → b.name ∈ seen

section Search

variable {s : Site} {d : Declarations} {root c b : ClassEntry} {seen parents : List String}
  {waiting found ancestors : List ClassEntry} {steps : Nat}

theorem mem_classes_of_reached (hroot : root ∈ d.classes) (h : ReflTransGen d.Extends root b) :
    b ∈ d.classes := by
  rcases Relation.reflTransGen_iff_eq_or_transGen.mp h with rfl | hpath
  · exact hroot
  · exact mem_classes_of_transGen hpath

theorem Queue.start (hnames : (d.classes.map (·.name)).Nodup) (hroot : root ∈ d.classes) :
    d.Queue root [root] [root.name] where
  root_seen := List.mem_singleton_self _
  reached := List.forall_mem_singleton.mpr .refl
  sorted := List.pairwise_singleton _ _
  band := List.forall_mem_singleton.mpr (List.forall_mem_singleton.mpr (Nat.le_succ _))
  closed a ha hseen hgone := by
    have heq := List.inj_on_of_nodup_map hnames (mem_classes_of_reached hroot ha) hroot
      (List.mem_singleton.mp hseen)
    exact absurd (List.mem_singleton.mpr heq) hgone

/-- What has not been seen is further away than the first class in the queue. -/
theorem Queue.lt_distance (hqueue : d.Queue root (c :: waiting) seen)
    (hb : ReflTransGen d.Extends root b) (hnew : b.name ∉ seen) :
    d.distance root c < d.distance root b := by
  obtain ⟨m, hm, a, b', hpath, ha, hstep, hb'⟩ :=
    (path_distance hb).exists_step_out hqueue.root_seen hnew
  have hwaits : a ∈ c :: waiting := by
    by_contra hgone
    exact hb' (hqueue.closed a hpath.reflTransGen ha hgone b' hstep)
  have hnear : d.distance root c ≤ d.distance root a := by
    rcases List.mem_cons.mp hwaits with rfl | hmem
    · exact Nat.le_refl _
    · exact (List.pairwise_cons.mp hqueue.sorted).1 a hmem
  have hlength := hpath.distance_le
  omega

/-- One step of the search takes the first class out of the queue and puts its new parents at the
end, which are one step further away. -/
theorem Queue.step (hnames : (d.classes.map (·.name)).Nodup) (hroot : root ∈ d.classes)
    (hqueue : d.Queue root (c :: waiting) seen) (hfound : UnseenAmong d seen c.parents found) :
    d.Queue root (waiting ++ found) (found.map (·.name) ++ seen) := by
  have hextends : ∀ b ∈ found, d.Extends c b := hfound.parent
  have hc : ReflTransGen d.Extends root c := hqueue.reached c List.mem_cons_self
  have hreached : ∀ b ∈ found, ReflTransGen d.Extends root b := fun b hb => hc.tail (hextends b hb)
  obtain ⟨hfirst, hsorted⟩ := List.pairwise_cons.mp hqueue.sorted
  have hdistance : ∀ b ∈ found, d.distance root b = d.distance root c + 1 := by
    intro b hb
    have hle := distance_extends hc (hextends b hb)
    have hlt := hqueue.lt_distance (hreached b hb) (hfound.new b hb)
    omega
  have hband : ∀ w ∈ waiting, d.distance root w ≤ d.distance root c + 1 := fun w hw =>
    hqueue.band c List.mem_cons_self w (List.mem_cons_of_mem c hw)
  have hbetween : ∀ w ∈ waiting ++ found,
      d.distance root c ≤ d.distance root w ∧ d.distance root w ≤ d.distance root c + 1 := by
    rw [List.forall_mem_append]
    refine ⟨fun w hw => ⟨hfirst w hw, hband w hw⟩, fun b hb => ?_⟩
    rw [hdistance b hb]
    omega
  refine ⟨List.mem_append_right _ hqueue.root_seen, ?_, ?_, ?_, ?_⟩
  · rw [List.forall_mem_append]
    exact ⟨fun w hw => hqueue.reached w (List.mem_cons_of_mem c hw), hreached⟩
  · rw [List.pairwise_append]
    refine ⟨hsorted, List.pairwise_of_forall_mem_list fun a ha b hb => ?_, fun w hw b hb => ?_⟩
    · rw [hdistance a ha, hdistance b hb]
    · rw [hdistance b hb]
      exact hband w hw
  · intro v hv w hw
    have hv' := hbetween v hv
    have hw' := hbetween w hw
    omega
  · intro a ha hseen hgone b hb
    rw [List.mem_append, not_or] at hgone
    rw [List.mem_append]
    rcases List.mem_append.mp hseen with hmem | hmem
    · obtain ⟨f, hf, hname⟩ := List.mem_map.mp hmem
      have heq := List.inj_on_of_nodup_map hnames (hextends f hf).mem_classes
        (mem_classes_of_reached hroot ha) hname
      exact absurd (heq ▸ hf) hgone.2
    · by_cases hac : a = c
      · subst hac
        obtain ⟨p, hp, hclass⟩ := hb
        rcases hfound.complete p hp b hclass with hmem | hmem
        · exact Or.inr hmem
        · exact Or.inl (List.mem_map_of_mem hmem)
      · refine Or.inr (hqueue.closed a ha hmem (fun hwaits => ?_) b hb)
        exact (List.mem_cons.mp hwaits).elim hac hgone.1

theorem search_sorted (hnames : (d.classes.map (·.name)).Nodup) (hroot : root ∈ d.classes)
    (hqueue : d.Queue root waiting seen) (hsteps : waiting.length + d.unseen seen ≤ steps)
    (h : search s d steps waiting seen = .ok found) :
    (waiting ++ found).Pairwise fun a b => d.distance root a ≤ d.distance root b := by
  induction steps generalizing waiting seen found with
  | zero =>
    cases h
    rw [List.append_nil]
    exact hqueue.sorted
  | succ steps ih =>
    cases waiting with
    | nil =>
      cases h
      exact List.Pairwise.nil
    | cons c waiting =>
      have hsearched := search_ok hsteps h
      rw [search] at h
      obtain ⟨new, hparents, h⟩ := ok_of_bind h
      obtain ⟨others, hrest, h⟩ := ok_of_bind h
      cases h
      have hnew := unseenParents_ok hparents
      have hbudget := hnew.budget
      have hbehind := ih (hqueue.step hnames hroot hnew)
        (by rw [List.length_cons] at hsteps; rw [List.length_append]; omega) hrest
      rw [List.append_assoc] at hbehind
      refine List.pairwise_cons.mpr ⟨List.forall_mem_append.mpr ⟨?_, fun b hb => ?_⟩, hbehind⟩
      · exact (List.pairwise_cons.mp hqueue.sorted).1
      · obtain ⟨w, hw, hpath⟩ := hsearched.reached b hb
        have hreached := (hqueue.reached w hw).trans hpath.to_reflTransGen
        exact Nat.le_of_lt (hqueue.lt_distance hreached (hsearched.new b hb))

/-- With more steps than are enough the search ends in the same way. -/
theorem search_succ (hsteps : waiting.length + d.unseen seen ≤ steps) :
    search s d (steps + 1) waiting seen = search s d steps waiting seen := by
  induction steps generalizing waiting seen with
  | zero =>
    have hnil : waiting = [] := List.length_eq_zero_iff.mp (by omega)
    subst hnil
    rfl
  | succ steps ih =>
    cases waiting with
    | nil => rfl
    | cons c waiting =>
      rw [search, search]
      cases hparents : unseenParents s d c seen c.parents with
      | error e => rfl
      | ok new =>
        have hbudget := (unseenParents_ok hparents).budget
        rw [bind_of_ok rfl, bind_of_ok rfl, ih]
        rw [List.length_cons] at hsteps
        rw [List.length_append]
        omega

theorem search_eq_ancestors (hsteps : d.classes.length + 1 ≤ steps) :
    search s d steps [c] [c.name] = d.ancestors s c := by
  induction steps, hsteps using Nat.le_induction with
  | base => rfl
  | succ steps hle ih => rw [search_succ ((start_le_steps d c).trans hle), ih]

/-- The fault is about one of these parents of a class, which is not declared. -/
def UndeclaredAmong (s : Site) (d : Declarations) (c : ClassEntry) (parents : List String)
    (e : Error) : Prop :=
  ∃ p ∈ parents, d.class? p = none ∧ e = .program (.unknownSuperclass p c.name) (s.span c.extent)

theorem unseenParents_error {e : Error} (h : unseenParents s d c seen parents = .error e) :
    UndeclaredAmong s d c parents e := by
  induction parents generalizing seen with
  | nil => cases h
  | cons p ps ih =>
    have hlater : ∀ {seen' : List String}, unseenParents s d c seen' ps = .error e →
        UndeclaredAmong s d c (p :: ps) e := by
      intro seen' h'
      obtain ⟨q, hq, hfault⟩ := ih h'
      exact ⟨q, List.mem_cons_of_mem p hq, hfault⟩
    rw [unseenParents] at h
    cases hclass : d.class? p with
    | none =>
      rw [hclass] at h
      cases h
      exact ⟨p, List.mem_cons_self, hclass, rfl⟩
    | some parent =>
      simp only [hclass] at h
      by_cases hseen : parent.name ∈ seen
      · rw [if_pos hseen] at h
        exact hlater h
      · rw [if_neg hseen] at h
        cases hrest : unseenParents s d c (parent.name :: seen) ps with
        | ok others =>
          rw [hrest] at h
          cases h
        | error e' =>
          rw [hrest] at h
          cases h
          exact hlater hrest

theorem unseenParents_declared (h : unseenParents s d c seen parents = .ok found) :
    ∀ p ∈ parents, d.class? p ≠ none := by
  induction parents generalizing seen found with
  | nil => exact List.forall_mem_nil _
  | cons p ps ih =>
    rw [unseenParents] at h
    cases hclass : d.class? p with
    | none =>
      rw [hclass] at h
      cases h
    | some parent =>
      simp only [hclass] at h
      refine List.forall_mem_cons.mpr ⟨by rw [hclass]; exact Option.some_ne_none _, ?_⟩
      by_cases hseen : parent.name ∈ seen
      · rw [if_pos hseen] at h
        exact ih h
      · rw [if_neg hseen] at h
        obtain ⟨others, hrest, -⟩ := ok_of_bind h
        exact ih hrest

theorem search_error {e : Error} (h : search s d steps waiting seen = .error e) :
    ∃ w ∈ waiting, ∃ b, ReflTransGen d.Extends w b ∧ UndeclaredAmong s d b b.parents e := by
  induction steps generalizing waiting seen with
  | zero => cases h
  | succ steps ih =>
    cases waiting with
    | nil => cases h
    | cons c waiting =>
      rw [search] at h
      cases hparents : unseenParents s d c seen c.parents with
      | error e' =>
        rw [hparents] at h
        cases h
        exact ⟨c, List.mem_cons_self, c, .refl, unseenParents_error hparents⟩
      | ok new =>
        rw [hparents, bind_of_ok rfl] at h
        cases hrest : search s d steps (waiting ++ new) (new.map (·.name) ++ seen) with
        | ok others =>
          rw [hrest] at h
          cases h
        | error e' =>
          rw [hrest] at h
          cases h
          obtain ⟨w, hw, b, hpath, hfault⟩ := ih hrest
          rcases List.mem_append.mp hw with hw | hw
          · exact ⟨w, List.mem_cons_of_mem c hw, b, hpath, hfault⟩
          · have hextends : d.Extends c w := (unseenParents_ok hparents).parent w hw
            exact ⟨c, List.mem_cons_self, b, .head hextends hpath, hfault⟩

theorem search_declared (hsteps : waiting.length + d.unseen seen ≤ steps)
    (h : search s d steps waiting seen = .ok found) :
    ∀ w ∈ waiting ++ found, ∀ p ∈ w.parents, d.class? p ≠ none := by
  induction steps generalizing waiting seen found with
  | zero =>
    have hnil : waiting = [] := List.length_eq_zero_iff.mp (by omega)
    subst hnil
    cases h
    exact List.forall_mem_nil _
  | succ steps ih =>
    cases waiting with
    | nil =>
      cases h
      exact List.forall_mem_nil _
    | cons c waiting =>
      rw [search] at h
      obtain ⟨new, hparents, h⟩ := ok_of_bind h
      obtain ⟨others, hrest, h⟩ := ok_of_bind h
      cases h
      have hbudget := (unseenParents_ok hparents).budget
      have hbehind := ih (by rw [List.length_cons] at hsteps; rw [List.length_append]; omega) hrest
      rw [List.append_assoc] at hbehind
      exact List.forall_mem_cons.mpr ⟨unseenParents_declared hparents, hbehind⟩

theorem ancestors_error {e : Error} (h : d.ancestors s c = .error e) :
    ∃ b, ReflTransGen d.Extends c b ∧ UndeclaredAmong s d b b.parents e := by
  obtain ⟨w, hw, b, hpath, hfault⟩ := search_error h
  rw [List.mem_singleton.mp hw] at hpath
  exact ⟨b, hpath, hfault⟩

/-- The search from a class fails just in case the class, or one reached from it, has a parent that
is not declared. -/
theorem ancestors_error_iff (hnames : (d.classes.map (·.name)).Nodup) (hc : c ∈ d.classes) :
    (∃ e, d.ancestors s c = .error e) ↔
      ∃ b, ReflTransGen d.Extends c b ∧ ∃ p ∈ b.parents, d.class? p = none := by
  constructor
  · rintro ⟨e, h⟩
    obtain ⟨b, hpath, p, hp, hnone, -⟩ := ancestors_error h
    exact ⟨b, hpath, p, hp, hnone⟩
  · rintro ⟨b, hpath, p, hp, hnone⟩
    cases h : d.ancestors s c with
    | error e => exact ⟨e, rfl⟩
    | ok ancestors =>
      have hfound : b ∈ [c] ++ ancestors := by
        by_cases hbc : b = c
        · exact hbc ▸ List.mem_cons_self
        · have hproper := (Relation.reflTransGen_iff_eq_or_transGen.mp hpath).resolve_left hbc
          exact List.mem_cons_of_mem c ((mem_ancestors hnames hc h).mpr ⟨hbc, hproper⟩)
      exact absurd hnone (search_declared (start_le_steps d c) h b hfound p hp)

/-- The classes are the others that are reached from the class, each once and nearest first. -/
structure NearestFirst (d : Declarations) (c : ClassEntry) (ancestors : List ClassEntry) :
    Prop where
  mem_iff : ∀ b, b ∈ ancestors ↔ b ≠ c ∧ TransGen d.Extends c b
  nodup : ancestors.Nodup
  sorted : ancestors.Pairwise fun a b => d.distance c a ≤ d.distance c b

theorem ancestors_nearestFirst (hnames : (d.classes.map (·.name)).Nodup) (hc : c ∈ d.classes)
    (h : d.ancestors s c = .ok ancestors) : d.NearestFirst c ancestors where
  mem_iff _ := mem_ancestors hnames hc h
  nodup := .of_map _ (ancestors_searched h).distinct
  sorted := by
    have hsorted := search_sorted hnames hc (.start hnames hc) (start_le_steps d c) h
    exact (List.pairwise_cons.mp hsorted).2

end Search

section Table

variable {s : Site} {d : Declarations} {o : Overrides} {c : ClassEntry} {name : String}
  {m : Callable}

/-- All ancestors are found, and the table is made, just in case all parents are declared. -/
theorem overrides_ok_iff (hnames : (d.classes.map (·.name)).Nodup) :
    (∃ o, d.overrides s = .ok o) ↔ ∀ c ∈ d.classes, ∀ p ∈ c.parents, d.class? p ≠ none := by
  constructor
  · rintro ⟨o, ho⟩ c hc p hp hnone
    obtain ⟨e, herror⟩ := (ancestors_error_iff (s := s) hnames hc).mpr ⟨c, .refl, p, hp, hnone⟩
    rw [(overrides_ok ho).1 c hc] at herror
    cases herror
  · intro hdeclared
    apply overrides_of_ancestors
    intro c hc
    cases h : d.ancestors s c with
    | ok ancestors => exact ⟨ancestors, rfl⟩
    | error e =>
      obtain ⟨b, hpath, p, hp, hnone, -⟩ := ancestors_error h
      exact absurd hnone (hdeclared b (mem_classes_of_reached hc hpath) p hp)

/-- A method is found with the methods of its name in the ancestors of its class, in their order;
no two of them are the same, and none is the method itself. -/
theorem overridden_exact (hd : d.Unambiguous) (ho : d.overrides s = .ok o) (hc : c ∈ d.classes)
    (hm : (name, m) ∈ c.methods) :
    ∃ ancestors, d.ancestors s c = .ok ancestors ∧
      o.overridden m.symbol = (ancestors.filterMap (·.method? name)).map (·.symbol) ∧
      ((o.overridden m.symbol).map Symbol.identity).Nodup ∧
      m.symbol.identity ∉ (o.overridden m.symbol).map Symbol.identity := by
  have hancestors := (overrides_ok ho).1 c hc
  have hentry : (c, name, m) ∈ d.methodEntries := mem_methodEntries.mpr ⟨hc, hm⟩
  have hoverridden := overridden_of_entry hd ho hentry
  refine ⟨d.ancestorsOf s c, hancestors, hoverridden, ?_, ?_⟩
  · rw [hoverridden, List.map_map]
    exact nodup_ancestor_methods hd hc hancestors name
  · rw [hoverridden]
    intro hself
    obtain ⟨x, hx, hidentity⟩ := List.mem_map.mp hself
    obtain ⟨n, hn, rfl⟩ := List.mem_map.mp hx
    obtain ⟨b, hb, hmethod⟩ := List.mem_filterMap.mp hn
    obtain ⟨hne, hpath⟩ := (mem_ancestors hd.classes hc hancestors).mp hb
    have hentry' : (b, name, n) ∈ d.methodEntries :=
      mem_methodEntries.mpr ⟨mem_classes_of_transGen hpath, mem_of_lookup hmethod⟩
    have heq := hd.eq_of_name hentry' hentry (congrArg Symbol.Identity.qualifiedName hidentity)
    exact hne (congrArg Prod.fst heq)

/-- Only methods with a method of the same name above them have a row in the table. -/
theorem exists_row_iff (hd : d.Unambiguous) (ho : d.overrides s = .ok o) (x : Symbol) :
    (∃ row ∈ o.rows, row.1.identity = x.identity) ↔
      ∃ c ∈ d.classes, ∃ name m, (name, m) ∈ c.methods ∧ m.symbol.identity = x.identity ∧
        ∃ b n, b ≠ c ∧ TransGen d.Extends c b ∧ b.method? name = some n := by
  have hfilled : o.Filled := by
    rw [(overrides_ok ho).2]
    exact Overrides.Filled.foldl_add (List.forall_mem_nil _) _
  rw [hfilled.exists_row_iff]
  constructor
  · intro hsome
    have hentry : ∃ e ∈ d.methodEntries, e.2.2.symbol.identity = x.identity := by
      by_contra hnone
      exact hsome (overridden_eq_nil ho fun e he hidentity => hnone ⟨e, he, hidentity⟩)
    obtain ⟨⟨c, name, m⟩, he, hidentity⟩ := hentry
    obtain ⟨hc, hm⟩ := mem_methodEntries.mp he
    rw [← Overrides.overridden_congr hidentity, overridden_of_entry hd ho he] at hsome
    obtain ⟨y, hy⟩ := List.exists_mem_of_ne_nil _ hsome
    obtain ⟨n, hn, -⟩ := List.mem_map.mp hy
    obtain ⟨b, hb, hmethod⟩ := List.mem_filterMap.mp hn
    obtain ⟨hne, hpath⟩ := (mem_ancestors hd.classes hc ((overrides_ok ho).1 c hc)).mp hb
    exact ⟨c, hc, name, m, hm, hidentity, b, n, hne, hpath, hmethod⟩
  · rintro ⟨c, hc, name, m, hm, hidentity, b, n, hne, hpath, hn⟩
    have hancestors := (overrides_ok ho).1 c hc
    have hb := (mem_ancestors hd.classes hc hancestors).mpr ⟨hne, hpath⟩
    rw [← Overrides.overridden_congr hidentity,
      overridden_of_entry hd ho (mem_methodEntries.mpr ⟨hc, hm⟩)]
    exact List.ne_nil_of_mem (List.mem_map_of_mem (List.mem_filterMap.mpr ⟨b, hb, hn⟩))

end Table

/-- For every class of a table of classes, whatever the classes extend, the search for ancestors
comes to an end by itself. It fails just in case the class, or one reached from it, has a parent
that is not declared, and then names such a class and parent. Otherwise it lists the other classes
that are reached over parents, each once and nearest first. So the table of a program holds for each
method those of its name in the ancestors of its class, in that order, without repetition and
without the method itself; and it has no row for anything else. -/
theorem lineage_is_exact (s : Site) :
    (∀ d : Declarations, (d.classes.map (·.name)).Nodup → ∀ c ∈ d.classes,
      (∀ steps, d.classes.length + 1 ≤ steps →
        search s d steps [c] [c.name] = d.ancestors s c) ∧
      ((∃ e, d.ancestors s c = .error e) ↔
        ∃ b, ReflTransGen d.Extends c b ∧ ∃ p ∈ b.parents, d.class? p = none) ∧
      (∀ e, d.ancestors s c = .error e → ∃ b, ReflTransGen d.Extends c b ∧
        ∃ p ∈ b.parents, d.class? p = none ∧
          e = .program (.unknownSuperclass p b.name) (s.span b.extent)) ∧
      ∀ ancestors, d.ancestors s c = .ok ancestors → d.NearestFirst c ancestors) ∧
    ∀ (p : Language.Program) (d : Declarations), ofProgram s p = .ok d →
      ((∃ o, d.overrides s = .ok o) ↔ ∀ c ∈ d.classes, ∀ q ∈ c.parents, d.class? q ≠ none) ∧
      ∀ o, d.overrides s = .ok o →
        (∀ c ∈ d.classes, ∀ name m, (name, m) ∈ c.methods →
          ∃ ancestors, d.ancestors s c = .ok ancestors ∧
            o.overridden m.symbol = (ancestors.filterMap (·.method? name)).map (·.symbol) ∧
            ((o.overridden m.symbol).map Symbol.identity).Nodup ∧
            m.symbol.identity ∉ (o.overridden m.symbol).map Symbol.identity) ∧
        ∀ x : Symbol, (∃ row ∈ o.rows, row.1.identity = x.identity) ↔
          ∃ c ∈ d.classes, ∃ name m, (name, m) ∈ c.methods ∧ m.symbol.identity = x.identity ∧
            ∃ b n, b ≠ c ∧ TransGen d.Extends c b ∧ b.method? name = some n := by
  constructor
  · intro d hnames c hc
    refine ⟨fun steps => search_eq_ancestors, ancestors_error_iff hnames hc, ?_, ?_⟩
    · exact fun e => ancestors_error
    · exact fun ancestors => ancestors_nearestFirst hnames hc
  · intro p d hprogram
    have hd := ofProgram_unambiguous hprogram
    refine ⟨overrides_ok_iff hd.classes, fun o ho => ⟨fun c hc name m => ?_, exists_row_iff hd ho⟩⟩
    exact overridden_exact hd ho hc

/-- A class with some parents and some methods. -/
def extending (name : String) (parents methods : List String) : Language.Item :=
  let nowhere : Language.Extent := ⟨⟨1, 1⟩, ⟨1, 1⟩⟩
  .classDecl (.mk [] name [] [] parents
    (methods.filterMap fun m =>
      (Language.FuncDecl.mk? [] m [] none (.mk [] nowhere) nowhere).map .func) nowhere)

/-- A class that is reached over two parents, one that extends itself, and a circle of three. -/
def tangled : Language.Program :=
  ⟨[extending "D" ["A"] ["m"], extending "A" ["B", "C"] ["m", "k"], extending "B" ["D"] [],
    extending "C" ["C", "D"] ["m"]], none⟩

/-- Two classes that extend each other, where only the second one has a parent that is missing. -/
def orphaned : Language.Program :=
  ⟨[extending "A" ["B"] [], extending "B" ["A", "Missing"] []], none⟩

/-- The site of a program without exception types of its own. -/
def builtinSite : Site := ⟨none, .builtin⟩

/-- The classes found from the class `A`, and what its method `m` overrides. -/
def foundFromA (d : Declarations) : Option (List String × List String) :=
  (d.class? "A").bind fun a => (d.ancestors builtinSite a).toOption.bind fun ancestors =>
    (d.overrides builtinSite).toOption.bind fun o => (a.method? "m").map fun m =>
      (ancestors.map (·.name), (o.overridden m.symbol).map (·.qualifiedName))

theorem eq_ok_of_toOption {ε α : Type} {x : Except ε α} {a : α} (h : x.toOption = some a) :
    x = .ok a := by
  cases x with
  | error e => cases h
  | ok b => exact congrArg Except.ok (Option.some.inj h)

theorem lineage_is_exact_of_tangled :
    (∃ d o a m ancestors, ofProgram builtinSite tangled = .ok d ∧
      d.overrides builtinSite = .ok o ∧ d.class? "A" = some a ∧ ("m", m) ∈ a.methods ∧
      d.ancestors builtinSite a = .ok ancestors ∧ d.NearestFirst a ancestors ∧
      ancestors.map (·.name) = ["B", "C", "D"] ∧
      (o.overridden m.symbol).map (·.qualifiedName) = ["C.m", "D.m"] ∧
      m.symbol.identity ∉ (o.overridden m.symbol).map Symbol.identity) ∧
    ∃ d a e, ofProgram builtinSite orphaned = .ok d ∧ d.class? "A" = some a ∧
      d.ancestors builtinSite a = .error e := by
  constructor
  · have hrun : (ofProgram builtinSite tangled).toOption.bind foundFromA =
        some (["B", "C", "D"], ["C.m", "D.m"]) := by decide +kernel
    obtain ⟨d, hd, hfound⟩ := Option.bind_eq_some_iff.mp hrun
    obtain ⟨a, ha, hfound⟩ := Option.bind_eq_some_iff.mp hfound
    obtain ⟨ancestors, hancestors, hfound⟩ := Option.bind_eq_some_iff.mp hfound
    obtain ⟨o, ho, hfound⟩ := Option.bind_eq_some_iff.mp hfound
    obtain ⟨m, hm, hfound⟩ := Option.map_eq_some_iff.mp hfound
    obtain ⟨hclasses, hprogram⟩ := lineage_is_exact builtinSite
    have hprogram' := eq_ok_of_toOption hd
    have hnames := (ofProgram_unambiguous hprogram').classes
    have hclass := mem_classes_of_class? ha
    have hmethod := mem_of_lookup hm
    obtain ⟨-, -, -, hnearest⟩ := hclasses d hnames a hclass
    obtain ⟨-, hoverridden⟩ := hprogram tangled d hprogram'
    obtain ⟨-, -, -, -, hself⟩ :=
      (hoverridden o (eq_ok_of_toOption ho)).1 a hclass "m" m hmethod
    exact ⟨d, o, a, m, ancestors, hprogram', eq_ok_of_toOption ho, ha, hmethod,
      eq_ok_of_toOption hancestors, hnearest _ (eq_ok_of_toOption hancestors),
      congrArg Prod.fst hfound, congrArg Prod.snd hfound, hself⟩
  · have hrun : (ofProgram builtinSite orphaned).toOption.bind (fun d =>
        (d.class? "A").bind fun a => (d.class? "B").map fun b =>
          (a.parents, b.parents, (d.class? "Missing").isNone)) =
        some (["B"], ["A", "Missing"], true) := by decide +kernel
    obtain ⟨d, hd, hfound⟩ := Option.bind_eq_some_iff.mp hrun
    obtain ⟨a, ha, hfound⟩ := Option.bind_eq_some_iff.mp hfound
    obtain ⟨b, hb, hfound⟩ := Option.map_eq_some_iff.mp hfound
    simp only [Prod.mk.injEq] at hfound
    obtain ⟨haparents, hbparents, hmissing⟩ := hfound
    have hprogram := eq_ok_of_toOption hd
    have hnames := (ofProgram_unambiguous hprogram).classes
    obtain ⟨-, hfails, -, -⟩ :=
      (lineage_is_exact builtinSite).1 d hnames a (mem_classes_of_class? ha)
    have hextends : d.Extends a b := ⟨"B", by rw [haparents]; exact List.mem_cons_self, hb⟩
    have hparent : "Missing" ∈ b.parents := by
      rw [hbparents]
      exact List.mem_cons_of_mem _ List.mem_cons_self
    obtain ⟨e, herror⟩ :=
      hfails.mpr ⟨b, .single hextends, "Missing", hparent, Option.isNone_iff_eq_none.mp hmissing⟩
    exact ⟨d, a, e, hprogram, ha, herror⟩

end CheckedExceptions.Typing.Declarations
