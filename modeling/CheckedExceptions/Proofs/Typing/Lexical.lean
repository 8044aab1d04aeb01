import CheckedExceptions.Proofs.Typing.Names

/-!
Scoping is lexical. All that resolution leaves in the scopes around a construct is what a `let`
binds in the innermost one. Where a fault ends the resolution of a row of statements, those in front
of it are bound, and nothing is left of the constructs that were open.
-/
namespace CheckedExceptions

namespace Typing

open CheckedExceptions.Language

namespace Context

/-- The scopes after an action, whether it has a result or finds a fault. -/
def scopesAfter {α : Type} (action : Resolving α) (env : Environment) : Environment :=
  match action env with
  | .ok _ env' => env'
  | .error _ env' => env'

/-- The action leaves the scopes as they are. -/
def Restores {α : Type} (action : Resolving α) : Prop := ∀ env, scopesAfter action env = env

variable {c : Context}

section Scopes

variable {α : Type} {x : Resolving α}

theorem scopesAfter_ok {a : α} {env env' : Environment} (h : x env = .ok a env') :
    scopesAfter x env = env' := by
  rw [scopesAfter, h]

theorem scopesAfter_error {e : Error} {env env' : Environment} (h : x env = .error e env') :
    scopesAfter x env = env' := by
  rw [scopesAfter, h]

theorem restores_pure (a : α) : Restores (pure a) := fun _ => rfl

theorem restores_lift (x : Except Error α) : Restores (lift x) := by
  intro env
  cases x <;> rfl

-- What is looked up need not be there: scopes are kept where a lookup fails as well.
theorem restores_of_ends {P : Environment → α → Environment → Prop} {numbers : List String}
    (h : ∀ env, Ends x env (P env) (c.Halts numbers False env true))
    (hkeeps : ∀ env a env', P env a env' → env' = env) : Restores x := by
  intro env
  cases hrun : x env with
  | ok a env' =>
    rw [scopesAfter_ok hrun]
    exact hkeeps env a env' ((h env).of_ok hrun)
  | error e env' =>
    rw [scopesAfter_error hrun]
    exact ((h env).of_error hrun).env_eq rfl

theorem restores_of_answers {P : Environment → α → Prop} {numbers : List String}
    (h : ∀ env, c.Answers numbers False x env (P env)) : Restores x :=
  restores_of_ends h fun _ _ _ ha => ha.1

end Scopes

section Restored

variable (c) (enclosing : List ClassEntry)

theorem resolveExpr_restores (e : Expr) : Restores (c.resolveExpr enclosing e) :=
  restores_of_answers fun env => resolveExpr_answers enclosing env e (List.Subset.refl _)

theorem resolveStmt_restores {s : Stmt} (hs : bindsNothing s = true) :
    Restores (c.resolveStmt enclosing s) := by
  have hends : ∀ env, Ends (c.resolveStmt enclosing s) env (c.ResolvesStmt enclosing env s)
      (c.Halts s.numbers False env true) := by
    intro env
    rw [← hs]
    exact resolveStmt_ends enclosing env s (List.Subset.refl _)
  exact restores_of_ends hends fun _ _ _ h => h.env_eq hs

theorem resolveBlock_restores (b : Block) : Restores (c.resolveBlock enclosing b) :=
  restores_of_answers fun env => resolveBlock_answers enclosing env b (List.Subset.refl _)

theorem resolveHandler_restores (h : Handler) : Restores (c.resolveHandler enclosing h) :=
  restores_of_answers fun env => resolveHandler_answers enclosing env h (List.Subset.refl _)

theorem resolveFunction_restores (info : Callable) (params : List Param) (body : Block)
    (x : Extent) : Restores (c.resolveFunction enclosing info params body x) :=
  restores_of_answers fun env =>
    resolveFunction_answers enclosing env info params body x (List.Subset.refl _)

theorem resolveClass_restores (k : ClassDecl) : Restores (c.resolveClass enclosing k) :=
  restores_of_answers fun env =>
    resolveClass_answers enclosing env none k False.elim (List.Subset.refl _)

end Restored

theorem resolvesStmt_of_ok {enclosing : List ClassEntry} {s : Stmt} {n : Node}
    {env env' : Environment} (h : c.resolveStmt enclosing s env = .ok n env') :
    c.ResolvesStmt enclosing env s n env' := by
  have hends : Ends (c.resolveStmt enclosing s) env (c.ResolvesStmt enclosing env s)
      (c.Halts s.numbers False env (bindsNothing s)) :=
    resolveStmt_ends enclosing env s (List.Subset.refl _)
  exact hends.of_ok h

theorem bindsNothing_of_wellBranched :
    ∀ s : Stmt, s.wellBranched = true → s.isLet = false → bindsNothing s = true
  | .ifElse condition thenBlock (some elseBranch) x, hs, _ => by
    rw [Stmt.wellBranched, Bool.and_eq_true, Bool.and_eq_true] at hs
    obtain ⟨-, hbranch, helse⟩ := hs
    have hnot : elseBranch.isLet = false := by
      cases elseBranch with
      | letBinding => cases hbranch
      | _ => rfl
    exact bindsNothing_of_wellBranched elseBranch helse hnot
  | .ifElse _ _ none _, _, _ => rfl
  | .letBinding _ _ _ _, _, h => by cases h
  | .assign _ _ _, _, _ | .raise _ _, _, _ | .returning _ _, _, _ | .whileLoop _ _ _, _, _
  | .tryCatch _ _ _ _, _, _ | .block _, _, _ | .expr _, _, _ => rfl

/-- A `let` that cannot be resolved binds nothing. -/
theorem resolveLet_error {enclosing : List ClassEntry} {name : String} {declared : Option String}
    {value : Expr} {x : Extent} {env last : Environment} {e : Error}
    (h : c.resolveStmt enclosing (.letBinding name declared value x) env = .error e last) :
    last = env := by
  rw [resolveStmt] at h
  have hvalue := resolveExpr_restores c enclosing value env
  cases hrun : c.resolveExpr enclosing value env with
  | ok typed env₁ =>
    rw [bind_ok hrun] at h
    cases h
  | error e' env₁ =>
    rw [bind_error hrun] at h
    cases h
    rwa [scopesAfter_error hrun] at hvalue

/-- The action leaves in the innermost scope what the statements in front of some place bind, and
what all of them bind if it has a result. -/
def Completes (c : Context) (enclosing : List ClassEntry) {α : Type} (action : Resolving α)
    (ss : List Stmt) : Prop :=
  ∀ scope outer, ∃ done rest, ss = done ++ rest ∧
    scopesAfter action ⟨scope :: outer⟩ =
      ⟨(c.boundAll enclosing (Environment.visible ⟨scope :: outer⟩) done ++ scope) :: outer⟩ ∧
    ∀ a last, action ⟨scope :: outer⟩ = .ok a last → rest = []

theorem boundAll_append (enclosing : List ClassEntry) (visible : LocalScope)
    (ss ss' : List Stmt) : c.boundAll enclosing visible (ss ++ ss') =
      c.boundAll enclosing (c.boundAll enclosing visible ss ++ visible) ss' ++
        c.boundAll enclosing visible ss := by
  induction ss generalizing visible with
  | nil => exact (List.append_nil _).symm
  | cons s ss ih =>
    rw [List.cons_append, boundAll, boundAll, ih, List.append_assoc, List.append_assoc]

section Sequences

variable {α β : Type} {enclosing : List ClassEntry} {x : Resolving α} {f : α → Resolving β}
  {ss ss' : List Stmt}

theorem Restores.completes (hx : Restores x) : c.Completes enclosing x [] :=
  fun scope outer => ⟨[], [], rfl, hx ⟨scope :: outer⟩, fun _ _ _ => rfl⟩

theorem Completes.bind (hx : c.Completes enclosing x ss)
    (hf : ∀ a, c.Completes enclosing (f a) ss') : c.Completes enclosing (x >>= f) (ss ++ ss') := by
  intro scope outer
  obtain ⟨done, rest, rfl, hscopes, hall⟩ := hx scope outer
  cases hrun : x ⟨scope :: outer⟩ with
  | error e env₁ =>
    -- Whatever was to come after it, nothing more is bound.
    refine ⟨done, rest ++ ss', List.append_assoc .., ?_, fun a last hlast => ?_⟩
    · rwa [scopesAfter_error (bind_error hrun), ← scopesAfter_error hrun]
    · rw [bind_error hrun] at hlast
      cases hlast
  | ok a env₁ =>
    cases hall a env₁ hrun
    rw [scopesAfter_ok hrun] at hscopes
    subst hscopes
    obtain ⟨done', rest', rfl, hscopes', hall'⟩ := hf a _ outer
    refine ⟨done ++ done', rest', ?_, ?_, fun b last hlast => ?_⟩
    · rw [List.append_nil, List.append_assoc]
    · rw [scopesAfter, bind_ok hrun, ← scopesAfter, hscopes', Environment.visible_append,
        boundAll_append, List.append_assoc]
    · rw [bind_ok hrun] at hlast
      exact hall' b last hlast

/-- One statement or definition, and then the others. -/
theorem Completes.cons {x : Resolving Node} {xs : Resolving (List Node)}
    (hx : c.Completes enclosing x ss) (hxs : c.Completes enclosing xs ss') :
    c.Completes enclosing (do
      let n ← x
      return n :: (← xs)) (ss ++ ss') := by
  rw [← List.append_nil ss']
  exact hx.bind fun n => hxs.bind fun ns => (restores_pure _).completes

end Sequences

/-- A statement that cannot be resolved binds nothing. -/
theorem resolveStmt_error {enclosing : List ClassEntry} {s : Stmt} (hs : s.wellBranched = true)
    {env last : Environment} {e : Error} (h : c.resolveStmt enclosing s env = .error e last) :
    last = env := by
  cases hlet : s.isLet with
  | true =>
    cases s with
    | letBinding name declared value x => exact resolveLet_error h
    | _ => cases hlet
  | false =>
    have hnothing := bindsNothing_of_wellBranched s hs hlet
    have hscopes := resolveStmt_restores c enclosing hnothing env
    rwa [scopesAfter_error h] at hscopes

theorem resolveStmt_completes (enclosing : List ClassEntry) {s : Stmt}
    (hs : s.wellBranched = true) : c.Completes enclosing (c.resolveStmt enclosing s) [s] := by
  intro scope outer
  cases hrun : c.resolveStmt enclosing s ⟨scope :: outer⟩ with
  | ok n last =>
    obtain ⟨rfl, -⟩ := (resolvesStmt_of_ok hrun).names rfl hs
    exact ⟨[s], [], rfl, scopesAfter_ok hrun, fun _ _ _ => rfl⟩
  | error e last =>
    refine ⟨[], [s], rfl, ?_, fun a last hlast => by cases hlast⟩
    rw [scopesAfter_error hrun]
    exact resolveStmt_error hs hrun

theorem resolveStmts_completes (enclosing : List ClassEntry) {ss : List Stmt}
    (hss : Stmt.wellBranchedAll ss = true) :
    c.Completes enclosing (c.resolveStmts enclosing ss) ss := by
  induction ss with
  | nil => exact (restores_pure _).completes
  | cons s ss ih =>
    rw [Stmt.wellBranchedAll, Bool.and_eq_true] at hss
    rw [resolveStmts]
    exact (resolveStmt_completes enclosing hss.1).cons (ih hss.2)

theorem resolveMembers_completes (enclosing : List ClassEntry) (info : ClassEntry) (index : Nat)
    {ms : List Member} (hms : Member.wellBranchedAll ms = true) :
    c.Completes enclosing (c.resolveMembers enclosing info index ms)
      (ms.filterMap Member.statement?) := by
  induction ms generalizing index with
  | nil => exact (restores_pure _).completes
  | cons m ms ih =>
    rw [Member.wellBranchedAll, Bool.and_eq_true] at hms
    cases m with
    | func f =>
      rw [resolveMembers]
      exact (restores_lift _).completes.bind fun m =>
        (resolveFunction_restores c enclosing m _ _ _).completes.cons (ih _ hms.2)
    | ctor k =>
      rw [resolveMembers]
      exact (restores_lift _).completes.bind fun m =>
        (resolveFunction_restores c enclosing m _ _ _).completes.cons (ih _ hms.2)
    | classDecl k =>
      rw [resolveMembers]
      exact (resolveClass_restores c enclosing k).completes.cons (ih _ hms.2)
    | stmt s =>
      rw [resolveMembers]
      exact (resolveStmt_completes enclosing hms.1).cons (ih _ hms.2)

theorem resolveItems_completes {items : List Item}
    (hitems : ∀ i ∈ items, i.wellBranched = true) :
    c.Completes [] (c.resolveItems items) (items.filterMap Item.statement?) := by
  induction items with
  | nil => exact (restores_pure _).completes
  | cons item items ih =>
    obtain ⟨hitem, hrest⟩ := List.forall_mem_cons.mp hitems
    cases item with
    | exception e => exact ih hrest
    | func f =>
      exact (restores_lift _).completes.bind fun info =>
        (resolveFunction_restores c [] info _ _ _).completes.cons (ih hrest)
    | classDecl k => exact (resolveClass_restores c [] k).completes.cons (ih hrest)
    | stmt s => exact (resolveStmt_completes [] hitem).cons (ih hrest)

/-- What is done to the scopes, also where a fault is found. Nothing but a `let` leaves anything in
them, and of a row of statements those are bound that were resolved before the fault. -/
structure LexicallyScoped (c : Context) : Prop where
  expression : ∀ enclosing e, Restores (c.resolveExpr enclosing e)
  statement : ∀ enclosing s, s.wellBranched = true → s.isLet = false →
    Restores (c.resolveStmt enclosing s)
  block : ∀ enclosing b, Restores (c.resolveBlock enclosing b)
  catchClause : ∀ enclosing h, Restores (c.resolveHandler enclosing h)
  function : ∀ enclosing info params body x,
    Restores (c.resolveFunction enclosing info params body x)
  classDecl : ∀ enclosing k, Restores (c.resolveClass enclosing k)
  /-- A `let` binds its one name in the innermost scope, or nothing. -/
  letBinding : ∀ enclosing name declared value x scope outer,
    let run := c.resolveStmt enclosing (.letBinding name declared value x) ⟨scope :: outer⟩
    let type := c.letType declared
      (c.valueType enclosing (Environment.visible ⟨scope :: outer⟩) value)
    (∀ n last, run = .ok n last → last = ⟨((name, type) :: scope) :: outer⟩) ∧
      ∀ e last, run = .error e last → last = ⟨scope :: outer⟩
  statements : ∀ enclosing ss, Stmt.wellBranchedAll ss = true →
    c.Completes enclosing (c.resolveStmts enclosing ss) ss
  members : ∀ enclosing info index ms, Member.wellBranchedAll ms = true →
    c.Completes enclosing (c.resolveMembers enclosing info index ms)
      (ms.filterMap Member.statement?)
  items : ∀ items : List Item, (∀ i ∈ items, i.wellBranched = true) →
    c.Completes [] (c.resolveItems items) (items.filterMap Item.statement?)

theorem lexicallyScoped (c : Context) : c.LexicallyScoped where
  expression := resolveExpr_restores c
  statement := fun enclosing s hs hlet =>
    resolveStmt_restores c enclosing (bindsNothing_of_wellBranched s hs hlet)
  block := resolveBlock_restores c
  catchClause := resolveHandler_restores c
  function := resolveFunction_restores c
  classDecl := resolveClass_restores c
  letBinding := fun _ _ _ _ _ _ _ =>
    ⟨fun _ _ hrun => ((resolvesStmt_of_ok hrun).names rfl rfl).1,
      fun _ _ => resolveLet_error⟩
  statements := fun enclosing _ => resolveStmts_completes enclosing
  members := fun enclosing info index _ => resolveMembers_completes enclosing info index
  items := fun _ => resolveItems_completes

end Context

end Typing

/-- Scoping is lexical. A construct of the language leaves the scopes around it as they were, with a
`let` for the only exception, and this holds for all statements that can be written. So each name of
a program has the type of the nearest binding of the name that is visible where it stands, if that
is an exception type, and has no type otherwise. -/
theorem scoping_is_lexical :
    (∀ c : Typing.Context, c.LexicallyScoped) ∧
    (∀ source p, Language.parseProgram source = .ok p → p.wellBranched = true) ∧
    ∀ (s : Typing.Site) (p : Language.Program) (program : TypedProgram),
      p.wellBranched = true → Typing.resolveProgram s p = .ok program →
      let c : Typing.Context := ⟨s, program.declarations⟩
      program.unit.names = c.namesOf (c.itemsUses [] p.items) :=
  ⟨Typing.Context.lexicallyScoped, fun _ _ => Language.wellBranched_of_parseProgram,
    fun _ _ _ => Typing.names_of_resolveProgram⟩

section Shadowing

open CheckedExceptions.Language

def mention (name : String) : Stmt := .expr (.ref name .nowhere)

/-- A name with a type of its own in a branch, in a catch clause and in a function, where it is
bound a second time without a type. -/
def shadowing : Program :=
  ⟨[.stmt (.letBinding "e" none (.new "RuntimeException" [] .nowhere) .nowhere),
    .stmt (.ifElse (.ref "e" .nowhere)
      (.mk [.letBinding "e" (some "IOException") (.ref "x" .nowhere) .nowhere, mention "e"]
        .nowhere)
      (some (.block (.mk [mention "e"] .nowhere))) .nowhere),
    .stmt (.tryCatch (.mk [mention "e"] .nowhere)
      [.mk (.typed "e" "Error" .nowhere) (some (.ref "e" .nowhere)) (.mk [mention "e"] .nowhere)
        .nowhere] none .nowhere),
    .func ⟨[], "f", [⟨"e", "IOException"⟩], none,
      .mk [mention "e", .letBinding "e" none (.number "1" .nowhere) .nowhere, mention "e"] .nowhere,
      .nowhere, by decide⟩,
    .stmt (mention "e")], none⟩

end Shadowing

theorem scoping_is_lexical_of_shadowing :
    shadowing.wellBranched = true ∧
    ∃ program, Typing.resolveProgram ⟨none, .builtin⟩ shadowing = .ok program ∧
      program.unit.names = Typing.Context.namesOf ⟨⟨none, .builtin⟩, program.declarations⟩
        (Typing.Context.itemsUses ⟨⟨none, .builtin⟩, program.declarations⟩ [] shadowing.items) ∧
      program.unit.names.map Node.ownType? =
        [some ⟨"RuntimeException"⟩, none, some ⟨"IOException"⟩, some ⟨"RuntimeException"⟩,
          some ⟨"RuntimeException"⟩, some ⟨"Error"⟩, some ⟨"Error"⟩, some ⟨"IOException"⟩, none,
          some ⟨"RuntimeException"⟩] := by
  have hbranched : shadowing.wellBranched = true := by decide +kernel
  have htypes : (Typing.resolveProgram ⟨none, .builtin⟩ shadowing).toOption.map
      (·.unit.names.map Node.ownType?) =
        some [some ⟨"RuntimeException"⟩, none, some ⟨"IOException"⟩, some ⟨"RuntimeException"⟩,
          some ⟨"RuntimeException"⟩, some ⟨"Error"⟩, some ⟨"Error"⟩, some ⟨"IOException"⟩, none,
          some ⟨"RuntimeException"⟩] := by
    decide +kernel
  cases hrun : Typing.resolveProgram ⟨none, .builtin⟩ shadowing with
  | error e =>
    rw [hrun] at htypes
    cases htypes
  | ok program =>
    rw [hrun] at htypes
    exact ⟨hbranched, program, rfl, scoping_is_lexical.2.2 _ _ program hbranched hrun,
      Option.some.inj htypes⟩

end CheckedExceptions
