import CheckedExceptions.Proofs.Typing.Matching
import CheckedExceptions.Proofs.Visits

/-!
Clauses that catch everything. In the table of a program every type is below the root, since only
the root has no parent, and whatever the program can throw is registered in that table. So a clause
without a guard and with nothing but a name, or with the type of the root, leaves no candidate in
the frame on top. The try statements of the text are the catch points of the tree, in the same order
and with clauses of the same kind.
-/
namespace CheckedExceptions

open CheckedExceptions.Language

/-- In an ordered table, every type is below the only one without a parent. -/
theorem Hierarchy.rooted_of_ordered {entries : List Entry} (h : Ordered entries) {root : String}
    (hroot : ∀ e ∈ entries, e.parent = none → e.name = root) {name : String}
    (hnamed : Named entries name) : name = root ∨ derives entries name root = true := by
  induction h generalizing name with
  | nil =>
    obtain ⟨e, he, -⟩ := hnamed
    cases he
  | @cons e older hfresh hparent holder ih =>
    obtain ⟨hself, hothers⟩ := List.forall_mem_cons.mp hroot
    by_cases hname : e.name = name
    · cases hp : e.parent with
      | none => exact Or.inl (hname.symm.trans (hself hp))
      | some p =>
        right
        simp only [derives, hname, ↓reduceIte, hp, Bool.or_eq_true, decide_eq_true_eq]
        exact ih hothers (hparent p hp)
    · obtain ⟨e', he', rfl⟩ := hnamed
      have hbehind : Named older e'.name := by
        rcases List.mem_cons.mp he' with rfl | he'
        · exact absurd rfl hname
        · exact ⟨e', he', rfl⟩
      rw [derives, if_neg hname]
      exact ih hothers hbehind

/-- Every type that a program registers is below the root. -/
theorem Typing.isSubtype_throwable {file : Option String} {decls : List ExceptionDecl}
    {h : Hierarchy} (hrun : registerExceptions file decls .builtin = .ok () h) {t : ExceptionType}
    (ht : h.contains t.name = true) :
    h.isSubtype t ⟨Hierarchy.throwableName⟩ = true := by
  obtain ⟨added, hentries, hperm⟩ := registerExceptions_ok hrun
  have hroot : ∀ e ∈ h.entries, e.parent = none → e.name = Hierarchy.throwableName := by
    have hbuiltin : ∀ e ∈ Hierarchy.builtin.entries, e.parent = none →
        e.name = Hierarchy.throwableName := by decide
    rw [hentries, List.forall_mem_append]
    refine ⟨fun e he hparent => ?_, hbuiltin⟩
    obtain ⟨d, -, rfl⟩ := List.mem_map.mp (hperm.mem_iff.mp he)
    cases hparent
  have hgrown := grown_of_registerExceptions Hierarchy.ordered_builtin hrun
  rw [Hierarchy.isSubtype_iff]
  refine (Hierarchy.rooted_of_ordered hgrown.ordered hroot (Hierarchy.contains_iff.mp ht)).imp_left
    fun hname => ?_
  rw [← hname]

section CatchPoints

/-- The clause has no guard and tests for the root. -/
def Clause.catchesAll (c : Clause) : Bool := c.caught? = some ⟨Hierarchy.throwableName⟩

namespace Node

/-- Which clauses of a catch point catch everything. -/
def catchPoint? : Node → Option (List Bool)
  | tryCatch _ clauses _ _ => some (clauses.map Clause.catchesAll)
  | _ => none

/-- The catch points of a tree, outer ones first, with the clauses that catch everything. -/
def catchPoints (n : Node) : List (List Bool) := n.preorder.filterMap catchPoint?

def catchPointsAll (ns : List Node) : List (List Bool) := (preorderAll ns).filterMap catchPoint?

theorem catchPointsAll_cons (n : Node) (ns : List Node) :
    catchPointsAll (n :: ns) = n.catchPoints ++ catchPointsAll ns :=
  List.filterMap_append

end Node

/-- The catch points inside a clause. -/
def Clause.catchPoints (c : Clause) : List (List Bool) := c.preorder.filterMap Node.catchPoint?

def Clause.catchPointsAll (cs : List Clause) : List (List Bool) :=
  (Clause.preorderAll cs).filterMap Node.catchPoint?

theorem Clause.catchPoints_mk (pattern guard body : Node) (span : Span) :
    (Clause.mk pattern guard body span).catchPoints =
      pattern.catchPoints ++ guard.catchPoints ++ body.catchPoints := by
  rw [catchPoints, preorder, List.filterMap_append, List.filterMap_append]
  rfl

theorem Clause.catchPointsAll_cons (c : Clause) (cs : List Clause) :
    Clause.catchPointsAll (c :: cs) = c.catchPoints ++ Clause.catchPointsAll cs :=
  List.filterMap_append

theorem Node.catchPoints_tryCatch (body : Node) (clauses : List Clause) (finalizer : Node)
    (span : Span) : (Node.tryCatch body clauses finalizer span).catchPoints =
      clauses.map Clause.catchesAll ::
        (body.catchPoints ++ Clause.catchPointsAll clauses ++ finalizer.catchPoints) := by
  have hpoint : (Node.tryCatch body clauses finalizer span).catchPoint? =
      some (clauses.map Clause.catchesAll) := rfl
  rw [catchPoints, preorder, List.filterMap_cons_some hpoint, List.filterMap_append,
    List.filterMap_append]
  rfl

/-- Expressions and patterns have no catch points in them. -/
theorem Node.Simple.catchPoints_eq_nil {n : Node} (h : n.Simple) : n.catchPoints = [] := by
  have hall : ∀ ns : List Node, (∀ n ∈ ns, n.catchPoints = []) → catchPointsAll ns = [] := by
    intro ns hns
    induction ns with
    | nil => rfl
    | cons n ns ih =>
      rw [List.forall_mem_cons] at hns
      rw [catchPointsAll_cons, hns.1, ih hns.2]
      rfl
  induction h with
  | invoke how symbol type span _ ih => exact hall _ ih
  | plain form span _ ih => exact hall _ ih

theorem Node.Simple.isAbsent_eq_false {n : Node} (h : n.Simple) : n.isAbsent = false := by
  cases h <;> rfl

namespace Language

/-- A pattern that is nothing but a name, or names the root. -/
def Pattern.catchesAll : Pattern → Bool
  | .typed _ type _ => type = Hierarchy.throwableName
  | .bind _ _ => true
  | .extractor _ _ _ => false

def Handler.catchesAll : Handler → Bool
  | .mk pattern guard _ _ => guard.isNone && pattern.catchesAll

mutual

/-- The try statements in a statement, outer ones first, with the handlers that catch everything. -/
def Stmt.catchPoints : Stmt → List (List Bool)
  | .letBinding _ _ _ _ | .assign _ _ _ | .raise _ _ | .returning _ _ | .expr _ => []
  | .ifElse _ thenBlock none _ => thenBlock.catchPoints
  | .ifElse _ thenBlock (some elseBranch) _ => thenBlock.catchPoints ++ elseBranch.catchPoints
  | .whileLoop _ body _ => body.catchPoints
  | .tryCatch body handlers none _ =>
    handlers.map Handler.catchesAll :: (body.catchPoints ++ Handler.catchPointsAll handlers)
  | .tryCatch body handlers (some finalizer) _ =>
    handlers.map Handler.catchesAll ::
      (body.catchPoints ++ Handler.catchPointsAll handlers ++ finalizer.catchPoints)
  | .block b => b.catchPoints

def Stmt.catchPointsAll : List Stmt → List (List Bool)
  | [] => []
  | s :: ss => s.catchPoints ++ Stmt.catchPointsAll ss

def Block.catchPoints : Block → List (List Bool)
  | .mk stmts _ => Stmt.catchPointsAll stmts

def Handler.catchPoints : Handler → List (List Bool)
  | .mk _ _ body _ => body.catchPoints

def Handler.catchPointsAll : List Handler → List (List Bool)
  | [] => []
  | h :: hs => h.catchPoints ++ Handler.catchPointsAll hs

end

mutual

def ClassDecl.catchPoints : ClassDecl → List (List Bool)
  | .mk _ _ _ _ _ members _ => Member.catchPointsAll members

def Member.catchPointsAll : List Member → List (List Bool)
  | [] => []
  | .func f :: ms => f.body.catchPoints ++ Member.catchPointsAll ms
  | .ctor k :: ms => k.body.catchPoints ++ Member.catchPointsAll ms
  | .classDecl k :: ms => k.catchPoints ++ Member.catchPointsAll ms
  | .stmt s :: ms => s.catchPoints ++ Member.catchPointsAll ms

end

def Item.catchPoints : Item → List (List Bool)
  | .exception _ => []
  | .func f => f.body.catchPoints
  | .classDecl k => k.catchPoints
  | .stmt s => s.catchPoints

/-- The try statements of a program, in the order of the text. -/
def Program.catchPoints (p : Program) : List (List Bool) := p.items.flatMap Item.catchPoints

end Language

namespace Typing.Context

variable {c : Context}

theorem ResolvesExpr.catchPoints {enclosing : List ClassEntry} {env : Environment} {e : Expr}
    {typed : Typed} (h : c.ResolvesExpr enclosing env e typed) : typed.1.catchPoints = [] :=
  h.simple.catchPoints_eq_nil

theorem ResolvesGuard.isAbsent {enclosing : List ClassEntry} {env : Environment}
    {guard : Option Expr} {n : Node} (h : c.ResolvesGuard enclosing env guard n) :
    n.isAbsent = guard.isNone ∧ n.catchPoints = [] := by
  cases h with
  | none => exact ⟨rfl, rfl⟩
  | some hguard => exact ⟨hguard.simple.isAbsent_eq_false, hguard.catchPoints⟩

theorem catchesAll_typePattern (t : ExceptionType) (binder : Option String) (guard body : Node)
    (span span' : Span) :
    (Clause.mk (.plain (.typePattern t binder) [] span) guard body span').catchesAll =
      (guard.isAbsent && decide (t.name = Hierarchy.throwableName)) := by
  cases t
  cases guard <;> simp [Clause.catchesAll, Clause.caught?, Clause.guard, Clause.pattern,
    Node.isAbsent]

theorem catchesAll_extractorPattern (name : String) (resolved : Bool) (parts : List Node)
    (guard body : Node) (span span' : Span) :
    (Clause.mk (.plain (.extractorPattern name resolved) parts span) guard body span').catchesAll =
      (guard.isAbsent && false) := by
  cases guard <;> rfl

/-- A clause without a guard catches everything just in case its pattern does. -/
theorem ResolvesPattern.catchesAll {env env' : Environment} {p : Pattern} {n : Node}
    (h : c.ResolvesPattern env p n env') (guard body : Node) (span : Span) :
    (Clause.mk n guard body span).catchesAll = (guard.isAbsent && p.catchesAll) := by
  cases h with
  | typed hlookup =>
    rw [catchesAll_typePattern, (contains_of_lookup hlookup).2]
    rfl
  | bind hget =>
    rw [catchesAll_typePattern, (contains_of_get hget).2]
    rfl
  | declared _ _ => exact catchesAll_extractorPattern _ _ _ guard body _ span
  | undeclared _ _ => exact catchesAll_extractorPattern _ _ _ guard body _ span

/-- A node made of an expression and of others has the catch points of the others. -/
theorem catchPoints_plain_of_simple {n : Node} (h : n.catchPoints = []) (form : Form)
    (ns : List Node) (span : Span) :
    (Node.plain form (n :: ns) span).catchPoints = Node.catchPointsAll ns := by
  change Node.catchPointsAll (n :: ns) = _
  rw [Node.catchPointsAll_cons, h]
  rfl

section Statements

variable {enclosing : List ClassEntry}

mutual

theorem ResolvesStmt.catchPoints {env env' : Environment} {s : Stmt} {n : Node} :
    c.ResolvesStmt enclosing env s n env' → n.catchPoints = s.catchPoints
  | .letBinding hvalue | .assign hvalue | .returning hvalue => by
    rw [Stmt.catchPoints]
    exact catchPoints_plain_of_simple hvalue.catchPoints _ [] _
  | .raise hvalue _ => by
    rw [Stmt.catchPoints]
    exact hvalue.catchPoints
  | .ifThen hcondition hthen => by
    rw [Stmt.catchPoints, catchPoints_plain_of_simple hcondition.catchPoints,
      Node.catchPointsAll_cons, hthen.catchPoints]
    exact List.append_nil _
  | .ifElse helse hcondition hthen => by
    rw [Stmt.catchPoints, catchPoints_plain_of_simple hcondition.catchPoints,
      Node.catchPointsAll_cons, Node.catchPointsAll_cons, hthen.catchPoints, helse.catchPoints]
    exact congrArg _ (List.append_nil _)
  | .whileLoop hcondition hbody => by
    rw [Stmt.catchPoints, catchPoints_plain_of_simple hcondition.catchPoints,
      Node.catchPointsAll_cons, hbody.catchPoints]
    exact List.append_nil _
  | .tryCatch hbody hhandlers => by
    obtain ⟨hkinds, hclauses⟩ := hhandlers.catchPoints
    rw [Stmt.catchPoints, Node.catchPoints_tryCatch, hkinds, hbody.catchPoints, hclauses]
    exact congrArg _ (List.append_nil _)
  | .tryFinally hbody hhandlers hfinalizer => by
    obtain ⟨hkinds, hclauses⟩ := hhandlers.catchPoints
    rw [Stmt.catchPoints, Node.catchPoints_tryCatch, hkinds, hbody.catchPoints, hclauses,
      hfinalizer.catchPoints]
  | .block hblock => by
    rw [Stmt.catchPoints]
    exact hblock.catchPoints
  | .expr hexpr => by
    rw [Stmt.catchPoints]
    exact hexpr.catchPoints

theorem ResolvesStmts.catchPoints {env env' : Environment} {ss : List Stmt} {ns : List Node} :
    c.ResolvesStmts enclosing env ss ns env' → Node.catchPointsAll ns = Stmt.catchPointsAll ss
  | .nil => by rw [Stmt.catchPointsAll]; rfl
  | .cons hfirst hrest => by
    rw [Stmt.catchPointsAll, Node.catchPointsAll_cons, hfirst.catchPoints, hrest.catchPoints]

theorem ResolvesBlock.catchPoints {env : Environment} {b : Block} {n : Node} :
    c.ResolvesBlock enclosing env b n → n.catchPoints = b.catchPoints
  | .mk hstmts => by
    rw [Block.catchPoints]
    exact hstmts.catchPoints

theorem ResolvesHandler.catchPoints {env : Environment} {h : Handler} {clause : Clause} :
    c.ResolvesHandler enclosing env h clause →
      clause.catchesAll = h.catchesAll ∧ clause.catchPoints = h.catchPoints
  | .mk hpattern hguard hbody => by
    obtain ⟨habsent, hpoints⟩ := hguard.isAbsent
    constructor
    · rw [hpattern.catchesAll, habsent, Handler.catchesAll]
    · rw [Clause.catchPoints_mk, hpattern.simple.catchPoints_eq_nil, hpoints, hbody.catchPoints,
        Handler.catchPoints]
      rfl

theorem ResolvesHandlers.catchPoints {env : Environment} {hs : List Handler}
    {clauses : List Clause} : c.ResolvesHandlers enclosing env hs clauses →
      clauses.map Clause.catchesAll = hs.map Handler.catchesAll ∧
        Clause.catchPointsAll clauses = Handler.catchPointsAll hs
  | .nil => by
    rw [Handler.catchPointsAll]
    exact ⟨rfl, rfl⟩
  | .cons hfirst hrest => by
    obtain ⟨hkind, hclause⟩ := hfirst.catchPoints
    obtain ⟨hkinds, hclauses⟩ := hrest.catchPoints
    constructor
    · rw [List.map_cons, List.map_cons, hkind, hkinds]
    · rw [Handler.catchPointsAll, Clause.catchPointsAll_cons, hclause, hclauses]

end

theorem ResolvesFunction.catchPoints {env : Environment} {info : Callable} {params : List Param}
    {body : Block} {x : Extent} {n : Node}
    (h : c.ResolvesFunction enclosing env info params body x n) :
    n.catchPoints = body.catchPoints := by
  cases h with
  | mk hstmts =>
    rw [Block.catchPoints]
    exact hstmts.catchPoints

end Statements

mutual

theorem ResolvesClass.catchPoints {enclosing : List ClassEntry} {env : Environment}
    {k : ClassDecl} {n : Node} :
    c.ResolvesClass enclosing env k n → n.catchPoints = k.catchPoints
  | .mk _ hmembers => by
    rw [ClassDecl.catchPoints]
    exact hmembers.catchPoints

theorem ResolvesMembers.catchPoints {enclosing : List ClassEntry} {info : ClassEntry}
    {env env' : Environment} {index : Nat} {ms : List Member} {ns : List Node} :
    c.ResolvesMembers enclosing info env index ms ns env' →
      Node.catchPointsAll ns = Member.catchPointsAll ms
  | .nil => by rw [Member.catchPointsAll]; rfl
  | .func _ hfirst hrest => by
    rw [Member.catchPointsAll, Node.catchPointsAll_cons, hfirst.catchPoints, hrest.catchPoints]
  | .ctor _ hfirst hrest => by
    rw [Member.catchPointsAll, Node.catchPointsAll_cons, hfirst.catchPoints, hrest.catchPoints]
  | .classDecl hfirst hrest => by
    rw [Member.catchPointsAll, Node.catchPointsAll_cons, hfirst.catchPoints, hrest.catchPoints]
  | .stmt hfirst hrest => by
    rw [Member.catchPointsAll, Node.catchPointsAll_cons, hfirst.catchPoints, hrest.catchPoints]

end

theorem ResolvesItems.catchPoints {env env' : Environment} {items : List Item} {ns : List Node}
    (h : c.ResolvesItems env items ns env') :
    Node.catchPointsAll ns = items.flatMap Item.catchPoints := by
  induction h with
  | nil => rfl
  | exception _ ih => exact ih
  | func _ hfirst _ ih =>
    rw [Node.catchPointsAll_cons, hfirst.catchPoints, ih, List.flatMap_cons, Item.catchPoints]
  | classDecl hfirst _ ih =>
    rw [Node.catchPointsAll_cons, hfirst.catchPoints, ih, List.flatMap_cons, Item.catchPoints]
  | stmt hfirst _ ih =>
    rw [Node.catchPointsAll_cons, hfirst.catchPoints, ih, List.flatMap_cons, Item.catchPoints]

end Typing.Context

end CatchPoints

/-- All candidates on the stack have registered types. -/
def FlowState.Registered (h : Hierarchy) (s : FlowState) : Prop :=
  ∀ frame ∈ s.scopes.frames, ∀ x ∈ frame, h.contains x.type.name = true

/-- What a run does to its stack if everything is caught by the root. -/
structure Flow.EmptiedByCatchAll (r : Rules) (h : Hierarchy) (tree : Node) : Prop where
  /-- A run comes to every node that can be reached, -/
  comes : ∀ n, tree.Reached n → ∃ s, Comes r tree n s
  /-- and whenever it comes to a node it returns from it, with registered types before and after. -/
  registered : ∀ n s, Comes r tree n s →
    s.Registered h ∧ ∃ s', walk r n s = .ok () s' ∧ s'.Registered h
  /-- It passes every catch point that can be reached, -/
  catches : ∀ body clauses finalizer span,
    tree.Reached (.tryCatch body clauses finalizer span) → ∃ s, Catches r tree clauses s
  /-- and if one of the clauses catches everything, nothing is left in the frame on top. -/
  emptied : ∀ clauses s, Catches r tree clauses s → clauses.any Clause.catchesAll = true →
    ∃ outer, s.scopes.frames = [] :: outer

/-- A tree that throws registered types only, with all of them below the root. -/
theorem Flow.emptiedByCatchAll {r : Rules} {h : Hierarchy} {tree : Node} (hsound : tree.Sound)
    (hjudges : tree.JudgesAll r.overridden fun t => h.contains t.name = true)
    (hroot : ∀ t : ExceptionType, h.contains t.name = true →
      r.classification.isSubtype t ⟨Hierarchy.throwableName⟩ = true) :
    EmptiedByCatchAll r h tree := by
  constructor
  case comes => exact fun n hn => exists_comes hsound hjudges hn
  case registered =>
    intro n s hcomes
    have hready := hcomes.ready hsound hjudges
    obtain ⟨s', hwalk, hs'⟩ := hready.returns
    exact ⟨hready.holds.types, s', hwalk, hs'.types⟩
  case catches =>
    intro body clauses finalizer span hreached
    obtain ⟨s, hcomes⟩ := exists_comes hsound hjudges hreached
    obtain ⟨s₁, hbody, hs₁⟩ := (hcomes.ready hsound hjudges).tryBody.returns
    obtain ⟨s₂, hcatch, -⟩ := (catchPoint_yields (r := r) clauses).holds (by simp) hs₁
    exact ⟨s₂, body, finalizer, span, s, s₁, hcomes, hbody, hcatch⟩
  case emptied =>
    rintro clauses s ⟨body, finalizer, span, s₀, s₁, hcomes, hbody, hcatch⟩ hall
    obtain ⟨c, hc, hcatches⟩ := List.any_eq_true.mp hall
    have hready := hcomes.ready hsound hjudges
    exact hready.emptied hroot hc (of_decide_eq_true hcatches) hbody hcatch

/-- The rules of a check of the program. -/
def TypedProgram.rules (program : TypedProgram) (roots : Roots) (policy : Policy) : Rules :=
  .ofPolicy program.hierarchy roots policy program.overrides.overridden

/-- In a program over the builtin types all registered types are below the root, the catch points of
the tree are the try statements of the text, and under every policy a catch point with a clause that
catches everything leaves nothing in the frame on top. -/
theorem catch_all_empties_frame {file : Option String} {p : Program} {program : TypedProgram}
    {h : Hierarchy} (htyped : Typing.typeProgram file p .builtin = .ok program h) :
    (∀ source, parseProgram source = .ok p → load .builtin file source = (.ok program, h)) ∧
    (∀ t : ExceptionType, program.hierarchy.contains t.name = true →
      program.hierarchy.isSubtype t ⟨Hierarchy.throwableName⟩ = true) ∧
    program.unit.catchPoints = p.catchPoints ∧
    ∀ policy, ∃ roots, program.hierarchy.roots = .ok roots ∧
      Flow.EmptiedByCatchAll (program.rules roots policy) program.hierarchy program.unit := by
  obtain ⟨hregister, hresolve⟩ := Typing.typeProgram_inv htyped
  obtain ⟨-, -, ⟨body, span, env, hbody, hunit⟩, hhierarchy⟩ := Typing.resolveProgram_ok hresolve
  have hgrown := Typing.grown_of_registerExceptions Hierarchy.ordered_builtin hregister
  have hthrowable : h.contains Hierarchy.throwableName = true := hgrown.contains rfl
  obtain ⟨-, hlinked⟩ := (Typing.resolveProgram_safe ⟨file, h⟩ hthrowable p).of_ok hresolve
  have hjudges := Typing.judgesAll_of_resolveProgram hthrowable hresolve
  have hroot : ∀ t : ExceptionType, program.hierarchy.contains t.name = true →
      program.hierarchy.isSubtype t ⟨Hierarchy.throwableName⟩ = true := by
    rw [hhierarchy]
    exact fun t ht => Typing.isSubtype_throwable hregister ht
  refine ⟨fun source hparse => ?_, hroot, ?_, fun policy => ⟨.builtin, ?_, ?_⟩⟩
  · simp only [load, hparse, htyped]
  · rw [hunit]
    exact hbody.catchPoints
  · rw [hhierarchy]
    exact Hierarchy.roots_eq_builtin hgrown.suffix
  · exact Flow.emptiedByCatchAll hlinked.sound hjudges hroot

/-- A type below one that is declared behind it, and a try statement with a clause that catches
everything around one whose guard may let everything pass. -/
def guardedInside : Program :=
  let x : Extent := .nowhere
  let dial : FuncDecl :=
    ⟨[⟨"throws", ["Refused"], [], x⟩], "dial", [], none, .mk [] x, x, by decide⟩
  let inner : Stmt := .tryCatch
    (.mk [.expr (.call "dial" [] x), .raise (.new "IllegalStateException" [] x) x] x)
    [.mk (.typed "e" "Throwable" x) (some (.truth true x)) (.mk [] x) x] none x
  let outer : Stmt := .tryCatch (.mk [inner] x)
    [.mk (.typed "e" "IOException" x) none (.mk [.raise (.new "Timeout" [] x) x] x) x,
      .mk (.bind "e" x) none (.mk [] x) x] none x
  ⟨[.exception ⟨"Refused", some "Timeout", x⟩, .exception ⟨"Timeout", none, x⟩, .func dial,
    .stmt outer], none⟩

theorem catch_all_empties_frame_of_guardedInside :
    ∃ (program : TypedProgram) (h : Hierarchy),
      Typing.typeProgram none guardedInside .builtin = .ok program h ∧
      program.hierarchy.isSubtype ⟨"Refused"⟩ ⟨"Throwable"⟩ = true ∧
      program.unit.catchPoints = [[false, true], [false]] ∧
      ∀ policy, ∃ roots clauses s outer, program.hierarchy.roots = .ok roots ∧
        Flow.Catches (program.rules roots policy) program.unit clauses s ∧
        s.scopes.frames = [] :: outer := by
  have hvisits : Typing.typedAs (fun program => program.hierarchy.contains "Refused" &&
      program.unit.visited.any fun n => n.catchPoint? = some [false, true])
      (Typing.typeProgram none guardedInside .builtin) = true := by decide +kernel
  cases hrun : Typing.typeProgram none guardedInside .builtin with
  | error e h =>
    rw [hrun] at hvisits
    cases hvisits
  | ok program h =>
    rw [hrun] at hvisits
    obtain ⟨-, hroot, hpoints, hpolicies⟩ := catch_all_empties_frame hrun
    obtain ⟨hrefused, hany⟩ := Bool.and_eq_true_iff.mp hvisits
    obtain ⟨n, hn, hpoint⟩ := List.any_eq_true.mp hany
    refine ⟨program, h, rfl, hroot ⟨"Refused"⟩ hrefused, hpoints, fun policy => ?_⟩
    obtain ⟨roots, hroots, hemptied⟩ := hpolicies policy
    cases n with
    | tryCatch body clauses finalizer span =>
      have hkinds : clauses.map Clause.catchesAll = [false, true] :=
        Option.some.inj (of_decide_eq_true hpoint)
      obtain ⟨s, hcatches⟩ := hemptied.catches body clauses finalizer span (.single hn)
      have hall : clauses.any Clause.catchesAll = true := by
        have hmem : true ∈ clauses.map Clause.catchesAll := by rw [hkinds]; decide
        obtain ⟨c, hc, hcatchesAll⟩ := List.mem_map.mp hmem
        exact List.any_eq_true.mpr ⟨c, hc, hcatchesAll⟩
      obtain ⟨outer, hframes⟩ := hemptied.emptied clauses s hcatches hall
      exact ⟨roots, clauses, s, outer, hroots, hcatches, hframes⟩
    | _ => cases hpoint

end CheckedExceptions
