import CheckedExceptions.Proofs.Typing.Rules
import CheckedExceptions.Proofs.Typing.Unplaced

/-!
Contexts that agree apart from places. What a name stands for is looked up among the registered
types, the classes, the functions and the open scopes. Where these agree apart from places, every
lookup that has a result in the one context has the same result in the other, and so have the
types of names and the calls and constructions that are made of them.
-/
namespace CheckedExceptions.Typing

open CheckedExceptions.Language

/-- Both computations have results with the same view, or neither has a result. -/
def SameResult {α β : Type} (view : α → β) (x x' : Except Error α) : Prop :=
  x.toOption.map view = x'.toOption.map view

section Results

variable {α β γ δ : Type} {view : α → γ} {view' : β → δ} {x x' : Except Error α}

theorem sameResult_ok {a a' : α} (h : view a = view a') : SameResult view (.ok a) (.ok a') :=
  congrArg some h

theorem sameResult_error (e e' : Error) : SameResult view (.error e) (.error e') := rfl

theorem SameResult.bind {k k' : α → Except Error β} (hx : SameResult view x x')
    (hk : ∀ a a', view a = view a' → SameResult view' (k a) (k' a')) :
    SameResult view' (x >>= k) (x' >>= k') := by
  cases x with
  | ok a =>
    cases x' with
    | ok a' => exact hk a a' (Option.some.inj hx)
    | error e' => cases hx
  | error e =>
    cases x' with
    | ok a' => cases hx
    | error e' => exact sameResult_error e e'

theorem SameResult.of_ok (h : SameResult view x x') {a : α} (hx : x = .ok a) :
    ∃ a', x' = .ok a' ∧ view a = view a' := by
  subst hx
  cases x' with
  | ok a' => exact ⟨a', rfl, Option.some.inj h⟩
  | error e' => cases h

end Results

/-- Two places that may be filled are filled with the same, apart from places in the text. -/
theorem map_eq_map_cases {α β : Type} {view : α → β} {o o' : Option α}
    (h : o.map view = o'.map view) :
    (o = none ∧ o' = none) ∨ ∃ a a', o = some a ∧ o' = some a' ∧ view a = view a' := by
  cases o with
  | none =>
    cases o' with
    | none => exact Or.inl ⟨rfl, rfl⟩
    | some a' => cases h
  | some a =>
    cases o' with
    | none => cases h
    | some a' => exact Or.inr ⟨a, a', rfl, rfl, Option.some.inj h⟩

theorem exists_of_map_eq {α β : Type} {view : α → β} {o o' : Option α}
    (h : o.map view = o'.map view) {a : α} (ho : o = some a) :
    ∃ a', o' = some a' ∧ view a = view a' := by
  subst ho
  rcases map_eq_map_cases h with ⟨hnone, -⟩ | ⟨b, a', hb, ha', hview⟩
  · cases hnone
  · cases hb
    exact ⟨a', ha', hview⟩

theorem eq_none_of_map_eq {α β : Type} {view : α → β} {o o' : Option α}
    (h : o.map view = o'.map view) (ho : o = none) : o' = none := by
  subst ho
  exact Option.map_eq_none_iff.mp h.symm

namespace Declarations

/-- Names lead to the same classes and functions, and there are as many classes. -/
structure Agrees (d d' : Declarations) : Prop where
  class? : ∀ name,
    (d.class? name).map ClassEntry.unplaced = (d'.class? name).map ClassEntry.unplaced
  function? : ∀ name,
    (d.function? name).map Callable.unplaced = (d'.function? name).map Callable.unplaced
  count : d.classes.length = d'.classes.length

variable {d d' : Declarations} (h : d.Agrees d') (s s' : Site)

include h

theorem Agrees.unseenParents (c c' : ClassEntry) (seen parents : List String) :
    SameResult (List.map ClassEntry.unplaced) (unseenParents s d c seen parents)
      (unseenParents s' d' c' seen parents) := by
  induction parents generalizing seen with
  | nil => exact sameResult_ok rfl
  | cons p ps ih =>
    unfold Declarations.unseenParents
    rcases map_eq_map_cases (h.class? p) with ⟨hnone, hnone'⟩ | ⟨b, b', hb, hb', hview⟩
    · rw [hnone, hnone']
      exact sameResult_error _ _
    · have hname : b.name = b'.name := (ClassEntry.eq_of_unplaced hview).1
      simp only [hb, hb', hname]
      split
      · exact ih seen
      · refine (ih (b'.name :: seen)).bind fun found found' hfound => sameResult_ok ?_
        rw [List.map_cons, List.map_cons, hview, hfound]

theorem Agrees.search (steps : Nat) {waiting waiting' : List ClassEntry}
    (hwaiting : waiting.map ClassEntry.unplaced = waiting'.map ClassEntry.unplaced)
    (seen : List String) :
    SameResult (List.map ClassEntry.unplaced) (search s d steps waiting seen)
      (search s' d' steps waiting' seen) := by
  induction steps generalizing waiting waiting' seen with
  | zero => exact sameResult_ok rfl
  | succ steps ih =>
    cases waiting with
    | nil =>
      rw [List.map_nil, eq_comm, List.map_eq_nil_iff] at hwaiting
      subst hwaiting
      exact sameResult_ok rfl
    | cons c waiting =>
      cases waiting' with
      | nil => cases hwaiting
      | cons c' waiting' =>
        rw [List.map_cons, List.map_cons, List.cons.injEq] at hwaiting
        have hparents : c.parents = c'.parents := (ClassEntry.eq_of_unplaced hwaiting.1).2
        rw [Declarations.search, Declarations.search, hparents]
        refine (h.unseenParents s s' c c' seen c'.parents).bind fun found found' hfound => ?_
        have hnames : found.map (·.name) = found'.map (·.name) := by
          have hview := congrArg (List.map ClassEntry.name) hfound
          rwa [List.map_map, List.map_map] at hview
        rw [hnames]
        refine (ih ?_ _).bind fun others others' hothers => sameResult_ok ?_
        · rw [List.map_append, List.map_append, hwaiting.2, hfound]
        · rw [List.map_append, List.map_append, hfound, hothers]

theorem Agrees.ancestors {c c' : ClassEntry} (hc : c.unplaced = c'.unplaced) :
    SameResult (List.map ClassEntry.unplaced) (ancestors s d c) (ancestors s' d' c') := by
  have hname : c.name = c'.name := (ClassEntry.eq_of_unplaced hc).1
  rw [Declarations.ancestors, Declarations.ancestors, h.count, hname]
  exact h.search s s' _ (by rw [List.map_singleton, List.map_singleton, hc]) _

omit h in
theorem method?_congr {c c' : ClassEntry} (hc : c.unplaced = c'.unplaced) (name : String) :
    (c.method? name).map Callable.unplaced = (c'.method? name).map Callable.unplaced := by
  rw [← ClassEntry.method?_unplaced, hc, ClassEntry.method?_unplaced]

omit h in
theorem findSome?_method?_unplaced (l : List ClassEntry) (name : String) :
    (l.findSome? (·.method? name)).map Callable.unplaced =
      (l.map ClassEntry.unplaced).findSome? (·.method? name) := by
  rw [List.map_findSome?, List.findSome?_map]
  simp only [Function.comp_def, ClassEntry.method?_unplaced]

theorem Agrees.methodOf {c c' : ClassEntry} (hc : c.unplaced = c'.unplaced) (name : String) :
    SameResult (Option.map Callable.unplaced) (methodOf s d c name) (methodOf s' d' c' name) := by
  unfold Declarations.methodOf
  rcases map_eq_map_cases (method?_congr hc name) with ⟨hnone, hnone'⟩ | ⟨m, m', hm, hm', hview⟩
  · rw [hnone, hnone']
    refine (h.ancestors s s' hc).bind fun found found' hfound => sameResult_ok ?_
    rw [findSome?_method?_unplaced, findSome?_method?_unplaced, hfound]
  · rw [hm, hm']
    exact sameResult_ok (congrArg some hview)

end Declarations

namespace Context

/-- Names lead to the same types, classes and functions, apart from places. -/
structure Agrees (c c' : Context) : Prop where
  site : c.toSite.Agrees c'.toSite
  declarations : c.declarations.Agrees c'.declarations

theorem Agrees.refl (c : Context) : c.Agrees c :=
  ⟨fun _ => rfl, fun _ => rfl, fun _ => rfl, rfl⟩

theorem Agrees.symm {c c' : Context} (h : c.Agrees c') : c'.Agrees c :=
  ⟨fun name => (h.site name).symm, fun name => (h.declarations.class? name).symm,
    fun name => (h.declarations.function? name).symm, h.declarations.count.symm⟩

/-- An expression without places: its node and its static type. -/
def Typed.unplaced (typed : Typed) : Typed := (typed.1.unplaced, typed.2.map ValueType.unplaced)

section Names

variable {c c' : Context} (h : c.Agrees c')

theorem ctorOfArity_unplaced (info : ClassEntry) (arity : Nat) :
    ctorOfArity info.unplaced arity = (ctorOfArity info arity).unplaced := by
  unfold ctorOfArity
  have hparams : info.unplaced.ctorParams = info.ctorParams := rfl
  rw [hparams]
  by_cases harity : arity = info.ctorParams.length
  · rw [if_pos harity, if_pos harity]
    rfl
  · rw [if_neg harity, if_neg harity]
    have hfind : info.unplaced.otherCtors.find? (·.params.length = arity) =
        (info.otherCtors.find? (·.params.length = arity)).map Callable.unplaced := by
      change (info.otherCtors.map Callable.unplaced).find? _ = _
      rw [List.find?_map]
      rfl
    rw [hfind]
    cases info.otherCtors.find? (·.params.length = arity) <;> rfl

theorem ctorOfArity_congr {info info' : ClassEntry} (hinfo : info.unplaced = info'.unplaced)
    (arity : Nat) : (ctorOfArity info arity).unplaced = (ctorOfArity info' arity).unplaced := by
  rw [← ctorOfArity_unplaced, hinfo, ctorOfArity_unplaced]

theorem unplacedAll_length {ns ns' : List Node} (hns : Node.unplacedAll ns = Node.unplacedAll ns') :
    ns.length = ns'.length := by
  rw [Node.unplacedAll_eq, Node.unplacedAll_eq] at hns
  have hlength := congrArg List.length hns
  rwa [List.length_map, List.length_map] at hlength

/-- What a name is bound to in scopes that know the same. -/
theorem lookup_congr {env env' : Environment} (h : env.unplaced = env'.unplaced) (name : String) :
    (env.lookup name).map (Option.map ValueType.unplaced) =
      (env'.lookup name).map (Option.map ValueType.unplaced) := by
  rw [← Environment.lookup_unplaced, h, Environment.lookup_unplaced]

theorem exception?_congr {type type' : Option ValueType}
    (h : type.map ValueType.unplaced = type'.map ValueType.unplaced) :
    ValueType.exception? type = ValueType.exception? type' := by
  rw [← ValueType.exception?_unplaced, h, ValueType.exception?_unplaced]

theorem class?_congr {type type' : Option ValueType}
    (h : type.map ValueType.unplaced = type'.map ValueType.unplaced) :
    (ValueType.class? type).map ClassEntry.unplaced =
      (ValueType.class? type').map ClassEntry.unplaced := by
  rw [← ValueType.class?_unplaced, h, ValueType.class?_unplaced]

theorem Typed.eq_of_unplaced {typed typed' : Typed} (h : typed.unplaced = typed'.unplaced) :
    typed.1.unplaced = typed'.1.unplaced ∧
      typed.2.map ValueType.unplaced = typed'.2.map ValueType.unplaced :=
  Prod.mk.inj h

theorem join_congr {bound bound' : Option (Option ValueType)}
    (h : bound.map (Option.map ValueType.unplaced) = bound'.map (Option.map ValueType.unplaced)) :
    bound.join.map ValueType.unplaced = bound'.join.map ValueType.unplaced := by
  rcases map_eq_map_cases h with ⟨rfl, rfl⟩ | ⟨type, type', rfl, rfl, hview⟩
  · rfl
  · exact hview

include h

theorem Agrees.classType (name : String) :
    ((c.declarations.class? name).map ValueType.classType).map ValueType.unplaced =
      ((c'.declarations.class? name).map ValueType.classType).map ValueType.unplaced := by
  rcases map_eq_map_cases (h.declarations.class? name) with
    ⟨hnone, hnone'⟩ | ⟨b, b', hb, hb', hview⟩
  · rw [hnone, hnone']
  · rw [hb, hb']
    exact congrArg (fun b => some (ValueType.classType b)) hview

theorem Agrees.namedType (name : String) :
    (c.namedType name).map ValueType.unplaced = (c'.namedType name).map ValueType.unplaced := by
  unfold Context.namedType
  rw [h.site.lookup name]
  cases c.hierarchy.lookup name with
  | some t => rfl
  | none => exact h.classType name

theorem Agrees.resultOf {f f' : Callable} (hf : f.unplaced = f'.unplaced) :
    (c.resultOf f).map ValueType.unplaced = (c'.resultOf f').map ValueType.unplaced := by
  have hresult : f.result = f'.result := (Callable.eq_of_unplaced hf).2
  rw [Context.resultOf, Context.resultOf, hresult]
  cases f'.result with
  | none => rfl
  | some name => exact h.namedType name

theorem Constructs.alike {name : String} {args args' : List Node} {x : Extent} {typed : Typed}
    (hargs : Node.unplacedAll args = Node.unplacedAll args') (x' : Extent)
    (hnew : c.Constructs name args x typed) :
    ∃ typed', c'.Constructs name args' x' typed' ∧ typed.unplaced = typed'.unplaced := by
  cases hnew with
  | exception hlookup =>
    refine ⟨_, .exception ((h.site.lookup name).trans hlookup), ?_⟩
    simp only [Typed.unplaced, Node.unplaced, hargs]
  | object hlookup hclass =>
    obtain ⟨info', hclass', hinfo⟩ := exists_of_map_eq (h.declarations.class? name) hclass
    refine ⟨_, .object ((h.site.lookup name).trans hlookup) hclass', ?_⟩
    simp only [Typed.unplaced, Node.unplaced, hargs, unplacedAll_length hargs,
      ctorOfArity_congr hinfo, Option.map_some, ValueType.unplaced, hinfo]

theorem Agrees.findInClasses (name : String) {enclosing enclosing' : List ClassEntry}
    (henclosing : enclosing.map ClassEntry.unplaced = enclosing'.map ClassEntry.unplaced) :
    SameResult (Option.map Callable.unplaced) (c.findInClasses name enclosing)
      (c'.findInClasses name enclosing') := by
  induction enclosing generalizing enclosing' with
  | nil =>
    rw [List.map_nil, eq_comm, List.map_eq_nil_iff] at henclosing
    subst henclosing
    exact sameResult_ok rfl
  | cons info enclosing ih =>
    cases enclosing' with
    | nil => cases henclosing
    | cons info' enclosing' =>
      rw [List.map_cons, List.map_cons, List.cons.injEq] at henclosing
      unfold Context.findInClasses
      refine (h.declarations.methodOf _ _ henclosing.1 name).bind fun found found' hfound => ?_
      rcases map_eq_map_cases hfound with ⟨rfl, rfl⟩ | ⟨m, m', rfl, rfl, hview⟩
      · exact ih henclosing.2
      · exact sameResult_ok (congrArg some hview)

theorem Calls.alike {name : String} {enclosing enclosing' : List ClassEntry}
    (henclosing : enclosing.map ClassEntry.unplaced = enclosing'.map ClassEntry.unplaced)
    {args args' : List Node} (hargs : Node.unplacedAll args = Node.unplacedAll args')
    {x : Extent} (x' : Extent) {typed : Typed} (hcall : c.Calls enclosing name args x typed) :
    ∃ typed', c'.Calls enclosing' name args' x' typed' ∧ typed.unplaced = typed'.unplaced := by
  have hclasses := h.findInClasses name henclosing
  cases hcall with
  | method hfound =>
    obtain ⟨found', hfound', hview⟩ := hclasses.of_ok hfound
    obtain ⟨m', rfl, hm⟩ := exists_of_map_eq hview rfl
    have htype := h.resultOf hm
    refine ⟨_, .method hfound', ?_⟩
    simp only [Typed.unplaced, Node.unplaced, Node.unplacedAll, thisNode, hargs,
      (Callable.eq_of_unplaced hm).1, exception?_congr htype, htype]
  | function hfound hfunction =>
    obtain ⟨found', hfound', hview⟩ := hclasses.of_ok hfound
    cases eq_none_of_map_eq hview rfl
    obtain ⟨f', hf', hf⟩ := exists_of_map_eq (h.declarations.function? name) hfunction
    have htype := h.resultOf hf
    refine ⟨_, .function hfound' hf', ?_⟩
    simp only [Typed.unplaced, Node.unplaced, hargs, (Callable.eq_of_unplaced hf).1,
      exception?_congr htype, htype]
  | new hfound hfunction hnew =>
    obtain ⟨found', hfound', hview⟩ := hclasses.of_ok hfound
    cases eq_none_of_map_eq hview rfl
    have hfunction' := eq_none_of_map_eq (h.declarations.function? name) hfunction
    obtain ⟨typed', hnew', htyped⟩ := hnew.alike h hargs x'
    exact ⟨typed', .new hfound' hfunction' hnew', htyped⟩

theorem Agrees.nameType (name : String) {enclosing enclosing' : List ClassEntry}
    (henclosing : enclosing.map ClassEntry.unplaced = enclosing'.map ClassEntry.unplaced)
    {bound bound' : Option (Option ValueType)}
    (hbound : bound.map (Option.map ValueType.unplaced) =
      bound'.map (Option.map ValueType.unplaced)) :
    (c.nameType enclosing name bound).map ValueType.unplaced =
      (c'.nameType enclosing' name bound').map ValueType.unplaced := by
  have hexception := exception?_congr (join_congr hbound)
  have hrest : (bound.getD ((c.declarations.class? name).map .classType)).map ValueType.unplaced =
      (bound'.getD ((c'.declarations.class? name).map .classType)).map ValueType.unplaced := by
    rcases map_eq_map_cases hbound with ⟨rfl, rfl⟩ | ⟨type, type', rfl, rfl, hview⟩
    · exact h.classType name
    · exact hview
  unfold Context.nameType
  rw [hexception]
  cases ValueType.exception? bound'.join with
  | some t => rfl
  | none =>
    cases name == "this" with
    | false => cases bound <;> cases bound' <;> exact hrest
    | true =>
      cases enclosing with
      | nil =>
        rw [List.map_nil, eq_comm, List.map_eq_nil_iff] at henclosing
        subst henclosing
        cases bound <;> cases bound' <;> exact hrest
      | cons info outer =>
        cases enclosing' with
        | nil => cases henclosing
        | cons info' outer' =>
          rw [List.map_cons, List.map_cons, List.cons.injEq] at henclosing
          exact congrArg (fun b => some (ValueType.classType b)) henclosing.1

theorem Agrees.thisType {enclosing enclosing' : List ClassEntry}
    (henclosing : enclosing.map ClassEntry.unplaced = enclosing'.map ClassEntry.unplaced)
    {bound bound' : Option (Option ValueType)}
    (hbound : bound.map (Option.map ValueType.unplaced) =
      bound'.map (Option.map ValueType.unplaced)) :
    (c.thisType enclosing bound).map ValueType.unplaced =
      (c'.thisType enclosing' bound').map ValueType.unplaced := by
  cases enclosing with
  | nil =>
    rw [List.map_nil, eq_comm, List.map_eq_nil_iff] at henclosing
    subst henclosing
    exact h.nameType "this" rfl hbound
  | cons info outer =>
    cases enclosing' with
    | nil => cases henclosing
    | cons info' outer' =>
      rw [List.map_cons, List.map_cons, List.cons.injEq] at henclosing
      exact congrArg (fun b => some (ValueType.classType b)) henclosing.1

theorem Agrees.letType (declared : Option String) {value value' : Option ValueType}
    (hvalue : value.map ValueType.unplaced = value'.map ValueType.unplaced) :
    (c.letType declared value).map ValueType.unplaced =
      (c'.letType declared value').map ValueType.unplaced := by
  cases declared with
  | none => exact hvalue
  | some name => exact h.namedType name

end Names

end Context

namespace ClassEntry

variable {info info' : ClassEntry} (h : info.unplaced = info'.unplaced)

include h

theorem memberSymbol_alike {index : Nat} {symbol : CheckedExceptions.Symbol}
    (hsymbol : info.memberSymbol index = .ok symbol) :
    ∃ symbol', info'.memberSymbol index = .ok symbol' ∧ symbol.unplaced = symbol'.unplaced := by
  have htables := congrArg (fun info => info.memberSymbols.lookup index) h
  have hview : (info.memberSymbols.lookup index).map Symbol.unplaced =
      (info'.memberSymbols.lookup index).map Symbol.unplaced := by
    rwa [← lookup_map_snd, ← lookup_map_snd]
  obtain ⟨symbol', hsymbol', hsame⟩ := exists_of_map_eq hview (found_ok_iff.mp hsymbol)
  exact ⟨symbol', found_ok_iff.mpr hsymbol', hsame⟩

theorem methodAt_alike {index : Nat} {m : Callable} (hm : info.methodAt index = .ok m) :
    ∃ m', info'.methodAt index = .ok m' ∧ m.unplaced = m'.unplaced := by
  obtain ⟨symbol, hsymbol, hm⟩ := ok_of_bind hm
  obtain ⟨symbol', hsymbol', hsame⟩ := memberSymbol_alike h hsymbol
  have hname : symbol.unplaced.name = symbol'.unplaced.name := by rw [hsame]
  obtain ⟨m', hm', hview⟩ :=
    exists_of_map_eq (Declarations.method?_congr h symbol.name) (found_ok_iff.mp hm)
  refine ⟨m', (bind_of_ok hsymbol' _).trans (found_ok_iff.mpr ?_), hview⟩
  exact (congrArg info'.method? hname.symm).trans hm'

theorem otherCtorAt_alike {index : Nat} {m : Callable} (hm : info.otherCtorAt index = .ok m) :
    ∃ m', info'.otherCtorAt index = .ok m' ∧ m.unplaced = m'.unplaced := by
  obtain ⟨symbol, hsymbol, hm⟩ := ok_of_bind hm
  obtain ⟨symbol', hsymbol', hsame⟩ := memberSymbol_alike h hsymbol
  have hctors : (info.otherCtor? symbol).map Callable.unplaced =
      (info'.otherCtor? symbol').map Callable.unplaced := by
    rw [← otherCtor?_unplaced, h, hsame, otherCtor?_unplaced]
  obtain ⟨m', hm', hview⟩ := exists_of_map_eq hctors (found_ok_iff.mp hm)
  exact ⟨m', (bind_of_ok hsymbol' _).trans (found_ok_iff.mpr hm'), hview⟩

end ClassEntry

end CheckedExceptions.Typing
