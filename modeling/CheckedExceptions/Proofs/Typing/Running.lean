import CheckedExceptions.Proofs.Subtyping
import CheckedExceptions.Proofs.Typing.Rules
import CheckedExceptions.Proofs.Typing.Tables

/-!
Runs of resolution follow the rules. A run that has a result has one that the rules allow, and what
they allow is what the run gives. A run that fails leaves the scopes around as they were, and the
program is to blame for the error as long as the hierarchy has the type of all throwables and the
tables hold what the program declares.
-/
namespace CheckedExceptions.Typing

open CheckedExceptions.Language

namespace Context

/-- How an action ends: what holds of its result and of the scopes after it, or of its error. -/
def Ends {α : Type} (action : Resolving α) (env : Environment) (P : α → Environment → Prop)
    (Q : Error → Environment → Prop) : Prop :=
  match action env with
  | .ok a env' => P a env'
  | .error e env' => Q e env'

/-- An error, and the scopes that it leaves. A program with the given numbers is to blame for it if
the tables are complete; what was bound is in the innermost scope, and nothing was if the action is
quiet. -/
structure Halts (c : Context) (numbers : List String) (complete : Prop) (env : Environment)
    (quiet : Bool) (e : Error) (env' : Environment) : Prop where
  blames : c.hierarchy.contains Hierarchy.throwableName = true → complete → e.Blames numbers
  pop_eq : env'.pop = env.pop
  env_eq : quiet = true → env' = env

/-- The action leaves the scopes as they are, and every result of it has the property. -/
abbrev Answers (c : Context) {α : Type} (numbers : List String) (complete : Prop)
    (action : Resolving α) (env : Environment) (P : α → Prop) : Prop :=
  Ends action env (fun a env' => env' = env ∧ P a) (c.Halts numbers complete env true)

section Steps

variable {c : Context} {α β : Type} {x : Resolving α} {f : α → Resolving β} {env : Environment}
  {P : α → Environment → Prop} {Q : Error → Environment → Prop} {R : β → Environment → Prop}
  {numbers : List String} {complete : Prop} {quiet : Bool}

theorem Ends.of_ok (h : Ends x env P Q) {a : α} {env' : Environment} (hrun : x env = .ok a env') :
    P a env' := by
  rwa [Ends, hrun] at h

theorem Ends.of_error (h : Ends x env P Q) {e : Error} {env' : Environment}
    (hrun : x env = .error e env') : Q e env' := by
  rwa [Ends, hrun] at h

theorem Ends.mono {P' : α → Environment → Prop} {Q' : Error → Environment → Prop}
    (h : Ends x env P Q) (hP : ∀ a env', P a env' → P' a env')
    (hQ : ∀ e env', Q e env' → Q' e env') : Ends x env P' Q' := by
  unfold Ends at h ⊢
  cases hrun : x env with
  | ok a env' =>
    rw [hrun] at h
    exact hP a env' h
  | error e env' =>
    rw [hrun] at h
    exact hQ e env' h

theorem Halts.of_blames {e : Error}
    (h : c.hierarchy.contains Hierarchy.throwableName = true → complete → e.Blames numbers) :
    c.Halts numbers complete env quiet e env :=
  ⟨h, rfl, fun _ => rfl⟩

theorem Halts.loosen {e : Error} {env' : Environment}
    (h : c.Halts numbers complete env quiet e env') :
    c.Halts numbers complete env false e env' :=
  ⟨h.blames, h.pop_eq, fun hquiet => by cases hquiet⟩

theorem Halts.of_quiet {e : Error} {env' : Environment}
    (h : c.Halts numbers complete env true e env') :
    c.Halts numbers complete env quiet e env' :=
  ⟨h.blames, h.pop_eq, fun _ => h.env_eq rfl⟩

theorem ends_pure {a : α} (h : P a env) : Ends (pure a) env P Q := h

theorem ends_get {f : Environment → Resolving β} (h : Ends (f env) env R Q) :
    Ends (get >>= f) env R Q := h

theorem ends_bind {name : String} {type : Option ValueType} {f : Unit → Resolving β}
    (h : Ends (f ()) (env.bind name type) R Q) : Ends (Context.bind name type >>= f) env R Q := h

/-- Two actions of which each leaves what it binds in the innermost scope. -/
theorem Ends.chain (hx : Ends x env P (c.Halts numbers complete env quiet))
    (hpop : ∀ a env₁, P a env₁ → env₁.pop = env.pop)
    (hquiet : ∀ a env₁, P a env₁ → quiet = true → env₁ = env)
    (hf : ∀ a env₁, P a env₁ → Ends (f a) env₁ R (c.Halts numbers complete env₁ quiet)) :
    Ends (x >>= f) env R (c.Halts numbers complete env quiet) := by
  cases hrun : x env with
  | ok a env₁ =>
    have ha := hx.of_ok hrun
    have hrest := hf a env₁ ha
    rw [Ends, bind_ok hrun]
    refine hrest.mono (fun _ _ h => h) fun e env₂ he => ?_
    exact ⟨he.blames, he.pop_eq.trans (hpop a env₁ ha),
      fun hq => (he.env_eq hq).trans (hquiet a env₁ ha hq)⟩
  | error e env₁ =>
    rw [Ends, bind_error hrun]
    exact hx.of_error hrun

theorem answers_pure {P : α → Prop} {a : α} (h : P a) :
    c.Answers numbers complete (pure a) env P := ⟨rfl, h⟩

theorem ends_fault (cause : Cause) (x : Extent) :
    Ends (c.fault cause x) env P (c.Halts numbers complete env quiet) :=
  Halts.of_blames fun _ _ => .program cause (c.span x)

theorem answers_lift {x : Except Error α} {P : α → Prop} {S : α → Prop}
    (hsafe : complete → Safe numbers x S) (hok : ∀ a, x = .ok a → P a) :
    c.Answers numbers complete (lift x) env P := by
  cases x with
  | ok a => exact ⟨rfl, hok a rfl⟩
  | error e => exact Halts.of_blames fun _ h => (hsafe h).of_error rfl

theorem Answers.bind {P : α → Prop} (hx : c.Answers numbers complete x env P)
    (hf : ∀ a, P a → Ends (f a) env R (c.Halts numbers complete env quiet)) :
    Ends (x >>= f) env R (c.Halts numbers complete env quiet) := by
  cases hrun : x env with
  | ok a env₁ =>
    obtain ⟨rfl, ha⟩ := hx.of_ok hrun
    rw [Ends, bind_ok hrun]
    exact hf a ha
  | error e env₁ =>
    rw [Ends, bind_error hrun]
    exact (hx.of_error hrun).of_quiet

theorem Answers.ends {P : α → Prop} {P' : α → Environment → Prop}
    (hx : c.Answers numbers complete x env P) (h : ∀ a, P a → P' a env) :
    Ends x env P' (c.Halts numbers complete env quiet) := by
  refine hx.mono ?_ fun _ _ => Halts.of_quiet
  rintro a env' ⟨rfl, ha⟩
  exact h a ha

theorem Ends.loosen (h : Ends x env P (c.Halts numbers complete env quiet)) :
    Ends x env P (c.Halts numbers complete env false) :=
  h.mono (fun _ _ ha => ha) fun _ _ => Halts.loosen

/-- What is bound in a scope of its own is gone when the scope is closed. -/
theorem Ends.inScope (hx : Ends x env.push P (c.Halts numbers complete env.push quiet))
    (hpop : ∀ a inner, P a inner → inner.pop = env) :
    c.Answers numbers complete (inScope x) env fun a => ∃ inner, P a inner := by
  unfold Answers Ends Context.inScope
  cases hrun : x env.push with
  | ok a inner =>
    have ha := hx.of_ok hrun
    exact ⟨hpop a inner ha, inner, ha⟩
  | error e inner =>
    have he := hx.of_error hrun
    exact ⟨he.blames, congrArg Environment.pop he.pop_eq, fun _ => he.pop_eq⟩

theorem ends_bindCaught {binder : String} {t : ExceptionType} {f : Option String → Resolving β}
    (h : Ends (f (caughtName binder)) (env.bindCaught binder t) R Q) :
    Ends (bindCaught binder t >>= f) env R Q := by
  unfold Context.bindCaught
  unfold caughtName Environment.bindCaught at h
  split at h <;> rename_i hbinder
  · rw [if_pos hbinder]
    exact h
  · rw [if_neg hbinder]
    exact h

end Steps

variable {c : Context}

theorem construct_ok_iff {name : String} {args : List Node} {x : Extent} {typed : Typed} :
    c.construct name args x = .ok typed ↔ c.Constructs name args x typed := by
  unfold construct
  constructor
  · intro h
    cases hlookup : c.hierarchy.lookup name with
    | some t =>
      simp only [hlookup] at h
      cases h
      exact .exception hlookup
    | none =>
      cases hclass : c.declarations.class? name with
      | none =>
        simp only [hlookup, hclass] at h
        cases h
      | some info =>
        simp only [hlookup, hclass] at h
        cases h
        exact .object hlookup hclass
  · rintro (⟨hlookup⟩ | ⟨hlookup, hclass⟩)
    · simp only [hlookup]
    · simp only [hlookup, hclass]

theorem contains_of_lookup {h : Hierarchy} {name : String} {t : ExceptionType}
    (hlookup : h.lookup name = some t) : h.contains name = true ∧ t = ⟨name⟩ := by
  unfold Hierarchy.lookup at hlookup
  split at hlookup
  · cases hlookup
    exact ⟨‹_›, rfl⟩
  · cases hlookup

theorem contains_of_get {h : Hierarchy} {name : String} {t : ExceptionType}
    (hget : h.get name = .ok t) : h.contains name = true ∧ t = ⟨name⟩ := by
  unfold Hierarchy.get at hget
  split at hget
  · cases hget
    exact ⟨‹_›, rfl⟩
  · cases hget

/-- What can be constructed has the name of a class or of an exception type. -/
theorem Constructs.known {name : String} {args : List Node} {x : Extent} {typed : Typed}
    (h : c.Constructs name args x typed) :
    ((c.declarations.class? name).isSome || c.hierarchy.contains name) = true := by
  cases h with
  | object _ hclass => rw [hclass, Option.isSome_some, Bool.true_or]
  | exception hlookup => rw [(contains_of_lookup hlookup).1, Bool.or_true]

theorem callByName_ok_iff {enclosing : List ClassEntry} {name : String} {args : List Node}
    {x : Extent} {typed : Typed} :
    c.callByName enclosing name args x = .ok typed ↔ c.Calls enclosing name args x typed := by
  constructor
  · intro h
    obtain ⟨found, hfound, h⟩ := ok_of_bind h
    cases found with
    | some m =>
      cases h
      exact .method hfound
    | none =>
      cases hfunction : c.declarations.function? name with
      | some f =>
        simp only [hfunction] at h
        cases h
        exact .function hfound hfunction
      | none =>
        simp only [hfunction] at h
        split at h
        · exact .new hfound hfunction (construct_ok_iff.mp h)
        · cases h
  · intro h
    unfold callByName
    cases h with
    | method hfound => exact bind_of_ok hfound _
    | function hfound hfunction =>
      rw [bind_of_ok hfound]
      simp only [hfunction]
      rfl
    | new hfound hfunction hnew =>
      rw [bind_of_ok hfound]
      simp only [hfunction]
      rw [if_pos hnew.known]
      exact construct_ok_iff.mpr hnew

theorem construct_safe (name : String) (args : List Node) (x : Extent) :
    Safe [] (c.construct name args x) fun _ => True := by
  unfold construct
  split
  · exact safe_ok trivial
  · split
    · exact safe_ok trivial
    · exact safe_fail c.toSite _ x

/-- The method of a plain call is one of a class around it or of an ancestor. -/
theorem findInClasses_safe (name : String) (enclosing : List ClassEntry) :
    Safe [] (c.findInClasses name enclosing) fun found =>
      ∀ m, found = some m →
        ∃ info, (info ∈ enclosing ∨ info ∈ c.declarations.classes) ∧
          info.method? name = some m := by
  induction enclosing with
  | nil => exact safe_ok fun m hm => by cases hm
  | cons info enclosing ih =>
    unfold findInClasses
    refine (Declarations.methodOf_safe c.toSite c.declarations info name).bind ?_
    intro found hfound
    cases found with
    | none =>
      refine ih.mono fun found hrest m hm => ?_
      obtain ⟨a, ha, hmethod⟩ := hrest m hm
      exact ⟨a, ha.imp_left (List.mem_cons_of_mem _), hmethod⟩
    | some m =>
      refine safe_ok fun m' hm' => ?_
      obtain ⟨a, ha, hmethod⟩ := hfound m' hm'
      refine ⟨a, ha.imp_left ?_, hmethod⟩
      rintro rfl
      exact List.mem_cons_self

theorem callByName_safe (enclosing : List ClassEntry) (name : String) (args : List Node)
    (x : Extent) : Safe [] (c.callByName enclosing name args x) fun _ => True := by
  unfold callByName
  refine (findInClasses_safe name enclosing).bind fun found _ => ?_
  cases found with
  | some m => exact safe_ok trivial
  | none =>
    simp only
    split
    · exact safe_ok trivial
    · split
      · exact construct_safe name args x
      · exact safe_fail c.toSite _ x

section Expressions

variable {numbers : List String} {complete : Prop} (enclosing : List ClassEntry) (env : Environment)

mutual

theorem resolveExpr_answers :
    ∀ e : Expr, e.numbers ⊆ numbers →
      c.Answers numbers complete (c.resolveExpr enclosing e) env (c.ResolvesExpr enclosing env e)
  | .ref name x, _ => by
    rw [resolveExpr]
    exact ends_get (answers_pure .ref)
  | .this x, _ => by
    rw [resolveExpr]
    exact ends_get (answers_pure .this)
  | .string text x, _ => by
    rw [resolveExpr]
    exact answers_pure .string
  | .number digits x, h => by
    rw [resolveExpr]
    have hmem : digits ∈ numbers := h (List.mem_singleton_self digits)
    refine (answers_lift (fun _ => numberValue_safe hmem) fun n hn => hn).bind fun n hn => ?_
    exact answers_pure (.number hn)
  | .truth value x, _ => by
    rw [resolveExpr]
    exact answers_pure .truth
  | .call name args x, h => by
    rw [resolveExpr]
    refine (resolveArgs_answers args h).bind fun nodes hnodes => ?_
    have hsafe := (callByName_safe (c := c) enclosing name nodes x).weaken (List.nil_subset numbers)
    exact answers_lift (fun _ => hsafe) fun typed htyped =>
      .call hnodes (callByName_ok_iff.mp htyped)
  | .new name args x, h => by
    rw [resolveExpr]
    refine (resolveArgs_answers args h).bind fun nodes hnodes => ?_
    have hsafe := (construct_safe (c := c) name nodes x).weaken (List.nil_subset numbers)
    exact answers_lift (fun _ => hsafe) fun typed htyped =>
      .new hnodes (construct_ok_iff.mp htyped)
  | .thisCall args x, h => by
    rw [resolveExpr.eq_def]
    cases henclosing : enclosing with
    | nil => exact ends_fault _ x
    | cons info outer =>
      simp only
      rw [← henclosing]
      refine (resolveArgs_answers args h).bind fun nodes hnodes => ?_
      exact answers_pure (.thisCall (by rw [henclosing]; rfl) hnodes)
  | .methodCall receiver name args x, h => by
    rw [resolveExpr]
    obtain ⟨hreceiver, hargs⟩ := List.append_subset.mp h
    refine (resolveExpr_answers receiver hreceiver).bind fun typed htyped => ?_
    obtain ⟨node, type⟩ := typed
    simp only
    cases howner : ValueType.class? type with
    | none => exact ends_fault _ x
    | some owner =>
      have hsafe := (Declarations.methodOf_safe c.toSite c.declarations owner name).weaken
        (List.nil_subset numbers)
      refine (answers_lift (fun _ => hsafe) fun found hfound => hfound).bind fun found hfound => ?_
      cases found with
      | none => exact ends_fault _ x
      | some m =>
        refine (resolveArgs_answers args hargs).bind fun nodes hnodes => ?_
        exact answers_pure (.methodCall htyped howner hfound hnodes)
  | .binary operator left right x, h => by
    rw [resolveExpr]
    obtain ⟨hleft, hright⟩ := List.append_subset.mp h
    refine (resolveExpr_answers left hleft).bind fun l hl => ?_
    refine (resolveExpr_answers right hright).bind fun r hr => ?_
    exact answers_pure (.binary hl hr)

theorem resolveArgs_answers :
    ∀ es : List Expr, Expr.numbersAll es ⊆ numbers →
      c.Answers numbers complete (c.resolveArgs enclosing es) env (c.ResolvesArgs enclosing env es)
  | [], _ => by
    rw [resolveArgs]
    exact answers_pure .nil
  | e :: es, h => by
    rw [resolveArgs]
    obtain ⟨hfirst, hrest⟩ := List.append_subset.mp h
    refine (resolveExpr_answers e hfirst).bind fun typed htyped => ?_
    refine (resolveArgs_answers es hrest).bind fun nodes hnodes => ?_
    exact answers_pure (.cons htyped hnodes)

end

theorem resolveGuard_answers (guard : Option Expr) (h : Expr.optionNumbers guard ⊆ numbers) :
    c.Answers numbers complete (c.resolveGuard enclosing guard) env
      (c.ResolvesGuard enclosing env guard) := by
  cases guard with
  | none => exact answers_pure .none
  | some e =>
    exact (resolveExpr_answers enclosing env e h).bind fun typed htyped =>
      answers_pure (.some htyped)

end Expressions

section Statements

variable {numbers : List String} {complete : Prop}

mutual

theorem resolvePattern_ends :
    ∀ (env : Environment) (p : Pattern),
      Ends (c.resolvePattern p) env (c.ResolvesPattern env p) (c.Halts numbers complete env false)
  | env, .typed binder type x => by
    rw [resolvePattern]
    cases hlookup : c.hierarchy.lookup type with
    | none => exact ends_fault _ x
    | some t => exact ends_bindCaught (ends_pure (.typed hlookup))
  | env, .bind binder x => by
    rw [resolvePattern]
    cases hget : c.hierarchy.get Hierarchy.throwableName with
    | error e =>
      refine Halts.of_blames fun hthrowable _ => ?_
      rw [Hierarchy.get_eq_ok (Hierarchy.contains_iff.mp hthrowable)] at hget
      cases hget
    | ok t => exact ends_bindCaught (ends_pure (.bind hget))
  | env, .extractor name args x => by
    rw [resolvePattern]
    refine (resolvePatterns_ends env args).chain (fun _ _ h => h.pop_eq)
      (fun _ _ _ hquiet => by cases hquiet) fun nodes env₁ hnodes => ?_
    cases hfunction : c.declarations.function? name with
    | some f => exact ends_pure (.declared hnodes hfunction)
    | none => exact ends_pure (.undeclared hnodes hfunction)

theorem resolvePatterns_ends :
    ∀ (env : Environment) (ps : List Pattern),
      Ends (c.resolvePatterns ps) env (c.ResolvesPatterns env ps)
        (c.Halts numbers complete env false)
  | env, [] => by
    rw [resolvePatterns]
    exact ends_pure .nil
  | env, p :: ps => by
    rw [resolvePatterns]
    refine (resolvePattern_ends env p).chain (fun _ _ h => h.pop_eq)
      (fun _ _ _ hquiet => by cases hquiet) fun node env₁ hnode => ?_
    refine (resolvePatterns_ends env₁ ps).chain (fun _ _ h => h.pop_eq)
      (fun _ _ _ hquiet => by cases hquiet) fun nodes env₂ hnodes => ?_
    exact ends_pure (.cons hnode hnodes)

end

variable (enclosing : List ClassEntry)

mutual

theorem resolveStmt_ends :
    ∀ (env : Environment) (s : Stmt), s.numbers ⊆ numbers →
      Ends (c.resolveStmt enclosing s) env (c.ResolvesStmt enclosing env s)
        (c.Halts numbers complete env (bindsNothing s))
  | env, .letBinding name declared value x, h => by
    rw [resolveStmt]
    refine (resolveExpr_answers enclosing env value h).bind fun typed htyped => ?_
    exact ends_bind (ends_pure (.letBinding htyped))
  | env, .assign name value x, h => by
    rw [resolveStmt]
    refine (resolveExpr_answers enclosing env value h).bind fun typed htyped => ?_
    exact ends_pure (.assign htyped)
  | env, .raise value x, h => by
    rw [resolveStmt]
    refine (resolveExpr_answers enclosing env value h).bind fun typed htyped => ?_
    obtain ⟨node, type⟩ := typed
    simp only
    cases htype : ValueType.exception? type with
    | none => exact ends_fault _ x
    | some t => exact ends_pure (.raise htyped htype)
  | env, .returning value x, h => by
    rw [resolveStmt]
    refine (resolveExpr_answers enclosing env value h).bind fun typed htyped => ?_
    exact ends_pure (.returning htyped)
  | env, .ifElse condition thenBlock none x, h => by
    rw [resolveStmt]
    obtain ⟨hcondition, hthen⟩ := List.append_subset.mp h
    refine (resolveExpr_answers enclosing env condition hcondition).bind fun test htest => ?_
    refine (resolveBlock_answers env thenBlock hthen).bind fun node hnode => ?_
    exact ends_pure (.ifThen htest hnode)
  | env, .ifElse condition thenBlock (some elseBranch) x, h => by
    rw [resolveStmt, bindsNothing]
    obtain ⟨hcondition, h⟩ := List.append_subset.mp h
    obtain ⟨hthen, helse⟩ := List.append_subset.mp h
    refine (resolveStmt_ends env elseBranch helse).chain (fun _ _ h => h.pop_eq)
      (fun _ _ h => h.env_eq) fun elseNode env₁ helseNode => ?_
    refine (resolveExpr_answers enclosing env₁ condition hcondition).bind fun test htest => ?_
    refine (resolveBlock_answers env₁ thenBlock hthen).bind fun node hnode => ?_
    exact ends_pure (.ifElse helseNode htest hnode)
  | env, .whileLoop condition body x, h => by
    rw [resolveStmt]
    obtain ⟨hcondition, hbody⟩ := List.append_subset.mp h
    refine (resolveExpr_answers enclosing env condition hcondition).bind fun test htest => ?_
    refine (resolveBlock_answers env body hbody).bind fun node hnode => ?_
    exact ends_pure (.whileLoop htest hnode)
  | env, .tryCatch body handlers none x, h => by
    rw [resolveStmt]
    obtain ⟨hbody, hhandlers⟩ := List.append_subset.mp h
    refine (resolveBlock_answers env body hbody).bind fun node hnode => ?_
    refine (resolveHandlers_answers env handlers hhandlers).bind fun clauses hclauses => ?_
    exact ends_pure (.tryCatch hnode hclauses)
  | env, .tryCatch body handlers (some finalizer) x, h => by
    rw [resolveStmt]
    obtain ⟨hbody, h⟩ := List.append_subset.mp h
    obtain ⟨hhandlers, hfinalizer⟩ := List.append_subset.mp h
    refine (resolveBlock_answers env body hbody).bind fun node hnode => ?_
    refine (resolveHandlers_answers env handlers hhandlers).bind fun clauses hclauses => ?_
    refine (resolveBlock_answers env finalizer hfinalizer).bind fun last hlast => ?_
    exact ends_pure (.tryFinally hnode hclauses hlast)
  | env, .block b, h => by
    rw [resolveStmt]
    exact (resolveBlock_answers env b h).ends fun _ => .block
  | env, .expr e, h => by
    rw [resolveStmt]
    refine (resolveExpr_answers enclosing env e h).bind fun typed htyped => ?_
    exact ends_pure (.expr htyped)

theorem resolveStmts_ends :
    ∀ (env : Environment) (ss : List Stmt), Stmt.numbersAll ss ⊆ numbers →
      Ends (c.resolveStmts enclosing ss) env (c.ResolvesStmts enclosing env ss)
        (c.Halts numbers complete env false)
  | env, [], _ => by
    rw [resolveStmts]
    exact ends_pure .nil
  | env, s :: ss, h => by
    rw [resolveStmts]
    obtain ⟨hfirst, hrest⟩ := List.append_subset.mp h
    refine (resolveStmt_ends env s hfirst).loosen.chain (fun _ _ h => h.pop_eq)
      (fun _ _ _ hquiet => by cases hquiet) fun node env₁ hnode => ?_
    refine (resolveStmts_ends env₁ ss hrest).chain (fun _ _ h => h.pop_eq)
      (fun _ _ _ hquiet => by cases hquiet) fun nodes env₂ hnodes => ?_
    exact ends_pure (.cons hnode hnodes)

theorem resolveBlock_answers :
    ∀ (env : Environment) (b : Block), b.numbers ⊆ numbers →
      c.Answers numbers complete (c.resolveBlock enclosing b) env (c.ResolvesBlock enclosing env b)
  | env, .mk stmts x, h => by
    rw [resolveBlock]
    refine ((resolveStmts_ends env.push stmts h).inScope fun _ _ h => h.pop_eq).bind ?_
    rintro nodes ⟨inner, hnodes⟩
    exact answers_pure (.mk hnodes)

theorem resolveHandler_answers :
    ∀ (env : Environment) (k : Handler), k.numbers ⊆ numbers →
      c.Answers numbers complete (c.resolveHandler enclosing k) env
        (c.ResolvesHandler enclosing env k)
  | env, .mk pattern guard body x, h => by
    rw [resolveHandler]
    obtain ⟨hguard, hbody⟩ := List.append_subset.mp h
    have hinner : Ends _ env.push
        (fun clause inner => c.ResolvesHandler enclosing env (.mk pattern guard body x) clause ∧
          inner.pop = env) (c.Halts numbers complete env.push false) :=
      (resolvePattern_ends env.push pattern).chain (fun _ _ h => h.pop_eq)
        (fun _ _ _ hquiet => by cases hquiet) fun p inner hp =>
          (resolveGuard_answers enclosing inner guard hguard).bind fun g hg =>
            (resolveBlock_answers inner body hbody).bind fun b hb =>
              ends_pure ⟨.mk hp hg hb, hp.pop_eq⟩
    refine (hinner.inScope fun _ _ h => h.2).mono ?_ fun _ _ h => h
    rintro clause env' ⟨rfl, inner, hclause, -⟩
    exact ⟨rfl, hclause⟩

theorem resolveHandlers_answers :
    ∀ (env : Environment) (ks : List Handler), Handler.numbersAll ks ⊆ numbers →
      c.Answers numbers complete (c.resolveHandlers enclosing ks) env
        (c.ResolvesHandlers enclosing env ks)
  | env, [], _ => by
    rw [resolveHandlers]
    exact answers_pure .nil
  | env, k :: ks, h => by
    rw [resolveHandlers]
    obtain ⟨hfirst, hrest⟩ := List.append_subset.mp h
    refine (resolveHandler_answers env k hfirst).bind fun clause hclause => ?_
    refine (resolveHandlers_answers env ks hrest).bind fun clauses hclauses => ?_
    exact answers_pure (.cons hclause hclauses)

end

theorem bindParams_run (params : List Param) (env : Environment) :
    c.bindParams params env = .ok () (c.withParams params env) := by
  induction params generalizing env with
  | nil => rfl
  | cons p ps ih => exact ih _

theorem ends_bindParams {β : Type} {f : Unit → Resolving β} {env : Environment}
    {params : List Param} {R : β → Environment → Prop} {Q : Error → Environment → Prop}
    (h : Ends (f ()) (c.withParams params env) R Q) : Ends (c.bindParams params >>= f) env R Q := by
  rw [Ends, bind_ok (bindParams_run params env)]
  exact h

/-- What follows the parameters in their scope is gone when the scope is closed. -/
theorem Ends.inBody {α : Type} {action : Resolving α} {env : Environment} {params : List Param}
    {P : α → Environment → Prop}
    (h : Ends action (c.withParams params env.push) P
      (c.Halts numbers complete (c.withParams params env.push) false))
    (hpop : ∀ a inner, P a inner → inner.pop = (c.withParams params env.push).pop) :
    c.Answers numbers complete (Context.inScope do c.bindParams params; action) env
      fun a => ∃ inner, P a inner := by
  have hparams := c.pop_withParams params env.push
  have hbody : Ends (do c.bindParams params; action) env.push P
      (c.Halts numbers complete env.push false) := by
    refine ends_bindParams (h.mono (fun _ _ ha => ha) fun e env' he => ?_)
    exact ⟨he.blames, he.pop_eq.trans hparams, fun hquiet => by cases hquiet⟩
  exact hbody.inScope fun a inner ha => (hpop a inner ha).trans hparams

theorem resolveFunction_answers (env : Environment) (info : Callable) (params : List Param)
    (body : Block) (x : Extent) (h : body.numbers ⊆ numbers) :
    c.Answers numbers complete (c.resolveFunction enclosing info params body x) env
      (c.ResolvesFunction enclosing env info params body x) := by
  obtain ⟨stmts, y⟩ := body
  rw [resolveFunction]
  refine ((resolveStmts_ends enclosing _ stmts h).inBody fun _ _ h => h.pop_eq).bind ?_
  rintro nodes ⟨inner, hnodes⟩
  exact answers_pure (.mk hnodes)

end Statements

section Classes

variable {numbers : List String} {complete : Prop}

mutual

theorem resolveClass_answers :
    ∀ (enclosing : List ClassEntry) (env : Environment) (outer : Option String) (k : ClassDecl),
      (complete → c.FindsClass outer k) → k.numbers ⊆ numbers →
      c.Answers numbers complete (c.resolveClass enclosing k) env (c.ResolvesClass enclosing env k)
  | enclosing, env, outer, .mk markers name params ctorMarkers parents members x, hfinds, h => by
    rw [resolveClass]
    simp only [FindsClass] at hfinds
    have hmembers := (List.append_subset.mp h).2
    have hclass : complete → Safe numbers (found (.classType name) (c.declarations.class? name))
        fun _ => True := fun hcomplete => safe_of_eq (found_ok_iff.mpr (hfinds hcomplete).1)
    refine (answers_lift hclass fun info hinfo => found_ok_iff.mp hinfo).bind fun info hinfo => ?_
    have hbody := resolveMembers_ends (info :: enclosing) info (c.withParams params env.push)
      (qualifiedName outer name) 0 0 members (fun hcomplete => by
        obtain ⟨hself, hfinds⟩ := hfinds hcomplete
        cases hself.symm.trans hinfo
        exact hfinds) hmembers
    refine (hbody.inBody fun _ _ h => h.pop_eq).bind ?_
    rintro nodes ⟨inner, hnodes⟩
    exact answers_pure (.mk hinfo hnodes)

theorem resolveMembers_ends :
    ∀ (enclosing : List ClassEntry) (info : ClassEntry) (env : Environment) (owner : String)
      (index ctors : Nat) (ms : List Member),
      (complete → c.FindsMembers info owner index ctors ms) → Member.numbersAll ms ⊆ numbers →
      Ends (c.resolveMembers enclosing info index ms) env
        (c.ResolvesMembers enclosing info env index ms) (c.Halts numbers complete env false)
  | enclosing, info, env, owner, index, ctors, [], _, _ => by
    rw [resolveMembers]
    exact ends_pure .nil
  | enclosing, info, env, owner, index, ctors, .func f :: ms, hfinds, h => by
    rw [resolveMembers]
    simp only [FindsMembers] at hfinds
    obtain ⟨hbody, hrest⟩ := List.append_subset.mp (List.append_subset.mp h).2
    refine (answers_lift (fun hcomplete => safe_of_eq (hfinds hcomplete).1) fun m hm => hm).bind
      fun m hm => ?_
    refine (resolveFunction_answers enclosing env m f.params f.body f.extent hbody).bind
      fun node hnode => ?_
    refine (resolveMembers_ends enclosing info env owner (index + 1) ctors ms
      (fun hcomplete => (hfinds hcomplete).2) hrest).chain (fun _ _ h => h.pop_eq)
      (fun _ _ _ hquiet => by cases hquiet) fun nodes env₁ hnodes => ?_
    exact ends_pure (.func hm hnode hnodes)
  | enclosing, info, env, owner, index, ctors, .ctor k :: ms, hfinds, h => by
    rw [resolveMembers]
    simp only [FindsMembers] at hfinds
    obtain ⟨hbody, hrest⟩ := List.append_subset.mp (List.append_subset.mp h).2
    refine (answers_lift (fun hcomplete => safe_of_eq (hfinds hcomplete).1) fun m hm => hm).bind
      fun m hm => ?_
    refine (resolveFunction_answers enclosing env m k.params k.body k.extent hbody).bind
      fun node hnode => ?_
    refine (resolveMembers_ends enclosing info env owner (index + 1) (ctors + 1) ms
      (fun hcomplete => (hfinds hcomplete).2) hrest).chain (fun _ _ h => h.pop_eq)
      (fun _ _ _ hquiet => by cases hquiet) fun nodes env₁ hnodes => ?_
    exact ends_pure (.ctor hm hnode hnodes)
  | enclosing, info, env, owner, index, ctors, .classDecl k :: ms, hfinds, h => by
    rw [resolveMembers]
    simp only [FindsMembers] at hfinds
    obtain ⟨hclass, hrest⟩ := List.append_subset.mp h
    refine (resolveClass_answers enclosing env (some owner) k
      (fun hcomplete => (hfinds hcomplete).1) hclass).bind fun node hnode => ?_
    refine (resolveMembers_ends enclosing info env owner (index + 1) ctors ms
      (fun hcomplete => (hfinds hcomplete).2) hrest).chain (fun _ _ h => h.pop_eq)
      (fun _ _ _ hquiet => by cases hquiet) fun nodes env₁ hnodes => ?_
    exact ends_pure (.classDecl hnode hnodes)
  | enclosing, info, env, owner, index, ctors, .stmt s :: ms, hfinds, h => by
    rw [resolveMembers]
    simp only [FindsMembers] at hfinds
    obtain ⟨hstmt, hrest⟩ := List.append_subset.mp h
    refine (resolveStmt_ends enclosing env s hstmt).loosen.chain (fun _ _ h => h.pop_eq)
      (fun _ _ _ hquiet => by cases hquiet) fun node env₁ hnode => ?_
    refine (resolveMembers_ends enclosing info env₁ owner (index + 1) ctors ms hfinds
      hrest).chain (fun _ _ h => h.pop_eq) (fun _ _ _ hquiet => by cases hquiet)
      fun nodes env₂ hnodes => ?_
    exact ends_pure (.stmt hnode hnodes)

end

theorem ResolvesItems.pop_eq {env env' : Environment} {items : List Item} {ns : List Node}
    (h : c.ResolvesItems env items ns env') : env'.pop = env.pop := by
  induction h with
  | nil => rfl
  | exception _ ih => exact ih
  | func _ _ _ ih => exact ih
  | classDecl _ _ ih => exact ih
  | stmt hfirst _ ih => exact ih.trans hfirst.pop_eq

theorem resolveItems_ends (env : Environment) (items : List Item)
    (hfinds : complete → ∀ item ∈ items, c.FindsItem item)
    (h : items.flatMap Item.numbers ⊆ numbers) :
    Ends (c.resolveItems items) env (c.ResolvesItems env items)
      (c.Halts numbers complete env false) := by
  induction items generalizing env with
  | nil => exact ends_pure .nil
  | cons item items ih =>
    rw [List.flatMap_cons] at h
    obtain ⟨hitem, hrest⟩ := List.append_subset.mp h
    have hself : complete → c.FindsItem item :=
      fun hcomplete => hfinds hcomplete item List.mem_cons_self
    have hitems := fun env => ih env
      (fun hcomplete other hother => hfinds hcomplete other (List.mem_cons_of_mem _ hother)) hrest
    cases item with
    | exception e =>
      exact (hitems env).mono (fun _ _ h => .exception h) fun _ _ h => h
    | func f =>
      refine (answers_lift (fun hcomplete => safe_of_eq (found_ok_iff.mpr (hself hcomplete)))
        fun info hinfo => found_ok_iff.mp hinfo).bind fun info hinfo => ?_
      refine (resolveFunction_answers [] env info f.params f.body f.extent
        (List.append_subset.mp hitem).2).bind fun node hnode => ?_
      refine (hitems env).chain (fun _ _ h => h.pop_eq) (fun _ _ _ hquiet => by cases hquiet)
        fun nodes env₁ hnodes => ?_
      exact ends_pure (.func hinfo hnode hnodes)
    | classDecl k =>
      refine (resolveClass_answers [] env none k hself hitem).bind fun node hnode => ?_
      refine (hitems env).chain (fun _ _ h => h.pop_eq) (fun _ _ _ hquiet => by cases hquiet)
        fun nodes env₁ hnodes => ?_
      exact ends_pure (.classDecl hnode hnodes)
    | stmt s =>
      refine (resolveStmt_ends [] env s hitem).loosen.chain (fun _ _ h => h.pop_eq)
        (fun _ _ _ hquiet => by cases hquiet) fun node env₁ hnode => ?_
      refine (hitems env₁).chain (fun _ _ h => h.pop_eq) (fun _ _ _ hquiet => by cases hquiet)
        fun nodes env₂ hnodes => ?_
      exact ends_pure (.stmt hnode hnodes)

/-- A run over items that has a result follows the rules. -/
theorem resolvesItems_of_ok {env env' : Environment} {items : List Item} {ns : List Node}
    (h : c.resolveItems items env = .ok ns env') : c.ResolvesItems env items ns env' := by
  have hends : Ends (c.resolveItems items) env (c.ResolvesItems env items)
      (c.Halts (items.flatMap Item.numbers) False env false) :=
    resolveItems_ends env items False.elim (List.Subset.refl _)
  exact hends.of_ok h

end Classes

section Completeness

variable {enclosing : List ClassEntry} {env env' : Environment}

theorem lift_run {α : Type} {x : Except Error α} {a : α} (h : x = .ok a) (env : Environment) :
    lift x env = .ok a env := by
  rw [h]
  rfl

theorem bindCaught_run (binder : String) (t : ExceptionType) (env : Environment) :
    bindCaught binder t env = .ok (caughtName binder) (env.bindCaught binder t) := by
  unfold bindCaught caughtName Environment.bindCaught
  split <;> rfl

theorem inScope_run {α : Type} {action : Resolving α} {a : α} {inner : Environment}
    (h : action env.push = .ok a inner) (hpop : inner.pop = env) :
    inScope action env = .ok a env := by
  rw [inScope, h, ← hpop]

theorem inBody_run {α : Type} {action : Resolving α} {params : List Param} {a : α}
    {inner : Environment} (h : action (c.withParams params env.push) = .ok a inner)
    (hpop : inner.pop = (c.withParams params env.push).pop) :
    inScope (do c.bindParams params; action) env = .ok a env := by
  refine inScope_run ?_ (hpop.trans (c.pop_withParams params env.push))
  rw [bind_ok (bindParams_run params env.push), h]

mutual

/-- What the rules allow for an expression is what resolving it gives. -/
theorem ResolvesExpr.run {e : Expr} {typed : Typed} :
    c.ResolvesExpr enclosing env e typed → c.resolveExpr enclosing e env = .ok typed env
  | .ref => by rw [resolveExpr]; rfl
  | .this => by rw [resolveExpr]; rfl
  | .string => by rw [resolveExpr]; rfl
  | .number hvalue => by
    rw [resolveExpr, bind_ok (lift_run hvalue env)]
    rfl
  | .truth => by rw [resolveExpr]; rfl
  | .call hargs hcall => by
    rw [resolveExpr, bind_ok hargs.run]
    exact lift_run (callByName_ok_iff.mpr hcall) env
  | .new hargs hnew => by
    rw [resolveExpr, bind_ok hargs.run]
    exact lift_run (construct_ok_iff.mpr hnew) env
  | .thisCall hinfo hargs => by
    have hrun := hargs.run
    cases enclosing with
    | nil => cases hinfo
    | cons info outer =>
      cases hinfo
      rw [resolveExpr, bind_ok hrun]
      rfl
  | .methodCall hreceiver howner hmethod hargs => by
    rw [resolveExpr, bind_ok hreceiver.run]
    simp only [howner]
    rw [bind_ok (lift_run hmethod env)]
    simp only
    rw [bind_ok hargs.run]
    rfl
  | .binary hleft hright => by
    rw [resolveExpr, bind_ok hleft.run]
    simp only
    rw [bind_ok hright.run]
    rfl

theorem ResolvesArgs.run {es : List Expr} {nodes : List Node} :
    c.ResolvesArgs enclosing env es nodes → c.resolveArgs enclosing es env = .ok nodes env
  | .nil => by rw [resolveArgs]; rfl
  | .cons hfirst hrest => by
    rw [resolveArgs, bind_ok hfirst.run]
    simp only
    rw [bind_ok hrest.run]
    rfl

end

mutual

theorem ResolvesPattern.run {env env' : Environment} {p : Pattern} {n : Node} :
    c.ResolvesPattern env p n env' → c.resolvePattern p env = .ok n env'
  | .typed hlookup => by
    rw [resolvePattern, hlookup]
    exact bind_ok (bindCaught_run _ _ env)
  | .bind hget => by
    rw [resolvePattern, hget]
    exact bind_ok (bindCaught_run _ _ env)
  | .declared hargs hfunction => by
    rw [resolvePattern, bind_ok hargs.run, hfunction]
    rfl
  | .undeclared hargs hfunction => by
    rw [resolvePattern, bind_ok hargs.run, hfunction]
    rfl

theorem ResolvesPatterns.run {env env' : Environment} {ps : List Pattern} {ns : List Node} :
    c.ResolvesPatterns env ps ns env' → c.resolvePatterns ps env = .ok ns env'
  | .nil => by rw [resolvePatterns]; rfl
  | .cons hfirst hrest => by
    rw [resolvePatterns, bind_ok hfirst.run, bind_ok hrest.run]
    rfl

end

theorem ResolvesGuard.run {guard : Option Expr} {n : Node}
    (h : c.ResolvesGuard enclosing env guard n) :
    c.resolveGuard enclosing guard env = .ok n env := by
  cases h with
  | none => rfl
  | some hguard => exact bind_ok hguard.run

mutual

theorem ResolvesStmt.run {env env' : Environment} {s : Stmt} {n : Node} :
    c.ResolvesStmt enclosing env s n env' → c.resolveStmt enclosing s env = .ok n env'
  | .letBinding hvalue => by
    rw [resolveStmt, bind_ok hvalue.run]
    rfl
  | .assign hvalue => by
    rw [resolveStmt, bind_ok hvalue.run]
    rfl
  | .raise hvalue htype => by
    rw [resolveStmt, bind_ok hvalue.run]
    simp only [htype]
    rfl
  | .returning hvalue => by
    rw [resolveStmt, bind_ok hvalue.run]
    rfl
  | .ifThen hcondition hthen => by
    rw [resolveStmt, bind_ok hcondition.run]
    simp only
    rw [bind_ok hthen.run]
    rfl
  | .ifElse helse hcondition hthen => by
    rw [resolveStmt, bind_ok helse.run, bind_ok hcondition.run]
    simp only
    rw [bind_ok hthen.run]
    rfl
  | .whileLoop hcondition hbody => by
    rw [resolveStmt, bind_ok hcondition.run]
    simp only
    rw [bind_ok hbody.run]
    rfl
  | .tryCatch hbody hhandlers => by
    rw [resolveStmt, bind_ok hbody.run, bind_ok hhandlers.run]
    rfl
  | .tryFinally hbody hhandlers hfinalizer => by
    rw [resolveStmt, bind_ok hbody.run, bind_ok hhandlers.run, bind_ok hfinalizer.run]
    rfl
  | .block hblock => by
    rw [resolveStmt]
    exact hblock.run
  | .expr hexpr => by
    rw [resolveStmt, bind_ok hexpr.run]
    rfl

theorem ResolvesStmts.run {env env' : Environment} {ss : List Stmt} {ns : List Node} :
    c.ResolvesStmts enclosing env ss ns env' → c.resolveStmts enclosing ss env = .ok ns env'
  | .nil => by rw [resolveStmts]; rfl
  | .cons hfirst hrest => by
    rw [resolveStmts, bind_ok hfirst.run, bind_ok hrest.run]
    rfl

theorem ResolvesBlock.run {env : Environment} {b : Block} {n : Node} :
    c.ResolvesBlock enclosing env b n → c.resolveBlock enclosing b env = .ok n env
  | .mk hstmts => by
    rw [resolveBlock, bind_ok (inScope_run hstmts.run hstmts.pop_eq)]
    rfl

theorem ResolvesHandler.run {env : Environment} {h : Handler} {clause : Clause} :
    c.ResolvesHandler enclosing env h clause → c.resolveHandler enclosing h env = .ok clause env
  | .mk hpattern hguard hbody => by
    rw [resolveHandler]
    refine inScope_run ?_ hpattern.pop_eq
    rw [bind_ok hpattern.run, bind_ok hguard.run, bind_ok hbody.run]
    rfl

theorem ResolvesHandlers.run {env : Environment} {hs : List Handler} {clauses : List Clause} :
    c.ResolvesHandlers enclosing env hs clauses →
      c.resolveHandlers enclosing hs env = .ok clauses env
  | .nil => by rw [resolveHandlers]; rfl
  | .cons hfirst hrest => by
    rw [resolveHandlers, bind_ok hfirst.run, bind_ok hrest.run]
    rfl

end

theorem ResolvesFunction.run {info : Callable} {params : List Param} {body : Block} {x : Extent}
    {n : Node} (h : c.ResolvesFunction enclosing env info params body x n) :
    c.resolveFunction enclosing info params body x env = .ok n env := by
  cases h with
  | mk hstmts => exact bind_ok (inBody_run hstmts.run hstmts.pop_eq)

mutual

theorem ResolvesClass.run {enclosing : List ClassEntry} {env : Environment} {k : ClassDecl}
    {n : Node} : c.ResolvesClass enclosing env k n → c.resolveClass enclosing k env = .ok n env
  | .mk hinfo hmembers => by
    rw [resolveClass, bind_ok (lift_run (found_ok_iff.mpr hinfo) env)]
    exact bind_ok (inBody_run hmembers.run hmembers.pop_eq)

theorem ResolvesMembers.run {enclosing : List ClassEntry} {info : ClassEntry}
    {env env' : Environment} {index : Nat} {ms : List Member} {ns : List Node} :
    c.ResolvesMembers enclosing info env index ms ns env' →
      c.resolveMembers enclosing info index ms env = .ok ns env'
  | .nil => by rw [resolveMembers]; rfl
  | .func hmethod hfirst hrest => by
    rw [resolveMembers, bind_ok (lift_run hmethod _), bind_ok hfirst.run, bind_ok hrest.run]
    rfl
  | .ctor hctor hfirst hrest => by
    rw [resolveMembers, bind_ok (lift_run hctor _), bind_ok hfirst.run, bind_ok hrest.run]
    rfl
  | .classDecl hfirst hrest => by
    rw [resolveMembers, bind_ok hfirst.run, bind_ok hrest.run]
    rfl
  | .stmt hfirst hrest => by
    rw [resolveMembers, bind_ok hfirst.run, bind_ok hrest.run]
    rfl

end

/-- What the rules allow for the items of a program is what resolving them gives. -/
theorem ResolvesItems.run {env env' : Environment} {items : List Item} {ns : List Node}
    (h : c.ResolvesItems env items ns env') : c.resolveItems items env = .ok ns env' := by
  induction h with
  | nil => rfl
  | exception _ ih => exact ih
  | func hinfo hfirst _ ih =>
    rw [resolveItems, bind_ok (lift_run (found_ok_iff.mpr hinfo) _), bind_ok hfirst.run, bind_ok ih]
    rfl
  | classDecl hfirst _ ih =>
    rw [resolveItems, bind_ok hfirst.run, bind_ok ih]
    rfl
  | stmt hfirst _ ih =>
    rw [resolveItems, bind_ok hfirst.run, bind_ok ih]
    rfl

end Completeness

end Context

/-- What a resolved program is made of. -/
theorem resolveProgram_ok {s : Site} {p : Program} {program : TypedProgram}
    (h : resolveProgram s p = .ok program) :
    Declarations.ofProgram s p = .ok program.declarations ∧
      program.declarations.overrides s = .ok program.overrides ∧
      (∃ body span env, Context.ResolvesItems ⟨s, program.declarations⟩ .initial p.items body env ∧
        program.unit = .unit body span) ∧
      program.hierarchy = s.hierarchy := by
  unfold resolveProgram at h
  obtain ⟨declarations, hdeclarations, h⟩ := ok_of_bind h
  obtain ⟨overrides, hoverrides, h⟩ := ok_of_bind h
  cases hrun : Context.resolveItems ⟨s, declarations⟩ p.items .initial with
  | error e env =>
    simp only [hrun] at h
    cases h
  | ok body env =>
    simp only [hrun] at h
    cases h
    exact ⟨hdeclarations, hoverrides,
      ⟨body, _, env, Context.resolvesItems_of_ok hrun, rfl⟩, rfl⟩

end CheckedExceptions.Typing
