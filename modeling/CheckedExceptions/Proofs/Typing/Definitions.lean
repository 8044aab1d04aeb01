import CheckedExceptions.Proofs.Typing.Admissible
import CheckedExceptions.Proofs.Typing.Running

/-!
The definitions in a tree. A program is gone over twice, once to declare its names and once to
resolve them. The second time looks up every declaration of the first and leaves a definition in the
tree for it, and no other: in the order of the text, the symbols defined in the tree are the
declared ones.
-/
namespace CheckedExceptions

mutual

/-- The symbols that a tree defines, outer ones first. A class has its primary constructor next. -/
def Node.definedSymbols : Node → List Symbol
  | .absent | .foreign _ => []
  | .unit body _ => Node.definedSymbolsAll body
  | .classDef symbol ctor body _ => symbol :: ctor :: Node.definedSymbolsAll body
  | .funcDef symbol _ body _ => symbol :: Node.definedSymbolsAll body
  | .tryCatch body clauses finalizer _ =>
    body.definedSymbols ++ Clause.definedSymbolsAll clauses ++ finalizer.definedSymbols
  | .clause c => c.definedSymbols
  | .raise value _ _ => value.definedSymbols
  | .invoke _ _ operands _ _ => Node.definedSymbolsAll operands
  | .plain _ parts _ => Node.definedSymbolsAll parts

def Node.definedSymbolsAll : List Node → List Symbol
  | [] => []
  | n :: ns => n.definedSymbols ++ Node.definedSymbolsAll ns

def Clause.definedSymbols : Clause → List Symbol
  | .mk pattern guard body _ =>
    pattern.definedSymbols ++ guard.definedSymbols ++ body.definedSymbols

def Clause.definedSymbolsAll : List Clause → List Symbol
  | [] => []
  | c :: cs => c.definedSymbols ++ Clause.definedSymbolsAll cs

end

namespace Node

theorem definedSymbolsAll_eq (ns : List Node) :
    definedSymbolsAll ns = ns.flatMap definedSymbols := by
  induction ns with
  | nil => rfl
  | cons n ns ih => rw [definedSymbolsAll, ih, List.flatMap_cons]

theorem clause_definedSymbolsAll_eq (cs : List Clause) :
    Clause.definedSymbolsAll cs = cs.flatMap Clause.definedSymbols := by
  induction cs with
  | nil => rfl
  | cons c cs ih => rw [Clause.definedSymbolsAll, ih, List.flatMap_cons]

/-- What a part of a tree defines is defined in the tree. -/
theorem definedSymbols_subset_of_child {n m : Node} (h : m ∈ n.children) :
    m.definedSymbols ⊆ n.definedSymbols := by
  have hamong : ∀ ns : List Node, m ∈ ns → m.definedSymbols ⊆ definedSymbolsAll ns := by
    intro ns hm symbol hsymbol
    rw [definedSymbolsAll_eq]
    exact List.mem_flatMap.mpr ⟨m, hm, hsymbol⟩
  cases n with
  | absent => cases h
  | foreign _ => cases h
  | unit body span => exact hamong body h
  | classDef symbol ctor body span =>
    exact List.subset_cons_of_subset _ (List.subset_cons_of_subset _ (hamong body h))
  | funcDef symbol params body span => exact List.subset_cons_of_subset _ (hamong body h)
  | tryCatch body clauses finalizer span =>
    rw [children, List.cons_append, List.mem_cons, List.mem_append, List.mem_map] at h
    intro symbol hsymbol
    rw [definedSymbols, List.mem_append, List.mem_append]
    rcases h with rfl | ⟨c, hc, rfl⟩ | h
    · exact Or.inl (Or.inl hsymbol)
    · rw [clause_definedSymbolsAll_eq]
      exact Or.inl (Or.inr (List.mem_flatMap.mpr ⟨c, hc, hsymbol⟩))
    · rw [List.mem_singleton.mp (List.mem_filter.mp h).1] at hsymbol
      exact Or.inr hsymbol
  | clause c =>
    obtain ⟨pattern, guard, body, span⟩ := c
    intro symbol hsymbol
    rw [definedSymbols, Clause.definedSymbols, List.mem_append, List.mem_append]
    have hm : m ∈ [pattern, guard, body] := (List.mem_filter.mp h).1
    simp only [List.mem_cons, List.not_mem_nil, or_false] at hm
    rcases hm with rfl | rfl | rfl
    · exact Or.inl (Or.inl hsymbol)
    · exact Or.inl (Or.inr hsymbol)
    · exact Or.inr hsymbol
  | raise value type span =>
    rw [List.mem_singleton.mp h]
    exact List.Subset.refl _
  | invoke how symbol operands type span => exact hamong operands h
  | plain form parts span => exact hamong parts h

/-- What any part of a tree defines is defined in the tree. -/
theorem definedSymbols_subset_of_inside {n m : Node} (h : n.Inside m) :
    m.definedSymbols ⊆ n.definedSymbols := by
  induction h with
  | refl => exact List.Subset.refl _
  | tail _ hchild ih => exact List.Subset.trans (definedSymbols_subset_of_child hchild) ih

end Node

/-- A tree of invocations and of nodes without an effect of their own, as expressions and patterns
have. -/
inductive Node.Simple : Node → Prop
  | invoke (how : Invocation) (symbol : Symbol) {operands : List Node}
      (type : Option ExceptionType) (span : Span) (hoperands : ∀ n ∈ operands, n.Simple) :
      Simple (.invoke how symbol operands type span)
  | plain (form : Form) {parts : List Node} (span : Span) (hparts : ∀ n ∈ parts, n.Simple) :
      Simple (.plain form parts span)

namespace Typing.Context

open CheckedExceptions.Language

/-- The tree defines nothing. -/
def Bare (n : Node) : Prop := n.definedSymbols = []

def BareAll (ns : List Node) : Prop := Node.definedSymbolsAll ns = []

theorem BareAll.cons {n : Node} {ns : List Node} (hn : Bare n) (hns : BareAll ns) :
    BareAll (n :: ns) := by
  rw [BareAll, Node.definedSymbolsAll, hn, hns]
  rfl

theorem bareAll_nil : BareAll [] := rfl

variable {c : Context}

section Simple

variable {enclosing : List ClassEntry} {env env' : Environment}

theorem Constructs.simple {name : String} {args : List Node} {x : Extent} {typed : Typed}
    (h : c.Constructs name args x typed) (hargs : ∀ n ∈ args, n.Simple) : typed.1.Simple := by
  cases h with
  | exception _ => exact .invoke _ _ _ _ hargs
  | object _ _ => exact .invoke _ _ _ _ hargs

theorem thisNode_simple (x : Extent) : (c.thisNode x).Simple := .plain _ _ (List.forall_mem_nil _)

theorem Calls.simple {name : String} {args : List Node} {x : Extent} {typed : Typed}
    (h : c.Calls enclosing name args x typed) (hargs : ∀ n ∈ args, n.Simple) :
    typed.1.Simple := by
  cases h with
  | method _ => exact .invoke _ _ _ _ (List.forall_mem_cons.mpr ⟨thisNode_simple x, hargs⟩)
  | function _ _ => exact .invoke _ _ _ _ hargs
  | new _ _ hnew => exact hnew.simple hargs

mutual

theorem ResolvesExpr.simple {e : Expr} {typed : Typed} :
    c.ResolvesExpr enclosing env e typed → typed.1.Simple
  | .ref | .this | .string | .number _ | .truth => .plain _ _ (List.forall_mem_nil _)
  | .call hargs hcall => hcall.simple hargs.simple
  | .new hargs hnew => hnew.simple hargs.simple
  | .thisCall _ hargs => .invoke _ _ _ _ hargs.simple
  | .methodCall hreceiver _ _ hargs =>
    .invoke _ _ _ _ (List.forall_mem_cons.mpr ⟨hreceiver.simple, hargs.simple⟩)
  | .binary hleft hright =>
    .plain _ _ (List.forall_mem_cons.mpr
      ⟨hleft.simple, List.forall_mem_singleton.mpr hright.simple⟩)

theorem ResolvesArgs.simple {es : List Expr} {nodes : List Node} :
    c.ResolvesArgs enclosing env es nodes → ∀ n ∈ nodes, n.Simple
  | .nil => List.forall_mem_nil _
  | .cons hfirst hrest => List.forall_mem_cons.mpr ⟨hfirst.simple, hrest.simple⟩

end

mutual

theorem ResolvesPattern.simple {env env' : Environment} {p : Pattern} {n : Node} :
    c.ResolvesPattern env p n env' → n.Simple
  | .typed _ | .bind _ => .plain _ _ (List.forall_mem_nil _)
  | .declared hargs _ =>
    .plain _ _ (List.forall_mem_cons.mpr
      ⟨.invoke _ _ _ _ (List.forall_mem_nil _), hargs.simple⟩)
  | .undeclared hargs _ => .plain _ _ hargs.simple

theorem ResolvesPatterns.simple {env env' : Environment} {ps : List Pattern} {ns : List Node} :
    c.ResolvesPatterns env ps ns env' → ∀ n ∈ ns, n.Simple
  | .nil => List.forall_mem_nil _
  | .cons hfirst hrest => List.forall_mem_cons.mpr ⟨hfirst.simple, hrest.simple⟩

end

end Simple

theorem bare_of_simple {n : Node} (h : n.Simple) : Bare n := by
  have hall : ∀ {ns : List Node}, (∀ n ∈ ns, Bare n) → BareAll ns := fun hns => by
    rw [BareAll, Node.definedSymbolsAll_eq]
    exact List.flatMap_eq_nil_iff.mpr hns
  induction h with
  | invoke how symbol type span _ ih => exact hall ih
  | plain form span _ ih => exact hall ih

section Bare

variable {enclosing : List ClassEntry}

theorem ResolvesExpr.bare {env : Environment} {e : Expr} {typed : Typed}
    (h : c.ResolvesExpr enclosing env e typed) : Bare typed.1 :=
  bare_of_simple h.simple

theorem ResolvesGuard.bare {env : Environment} {guard : Option Expr} {n : Node}
    (h : c.ResolvesGuard enclosing env guard n) : Bare n := by
  cases h with
  | none => rfl
  | some hguard => exact hguard.bare

mutual

theorem ResolvesStmt.bare {env env' : Environment} {s : Stmt} {n : Node} :
    c.ResolvesStmt enclosing env s n env' → Bare n
  | .letBinding hvalue | .assign hvalue | .returning hvalue =>
    BareAll.cons hvalue.bare bareAll_nil
  | .raise hvalue _ => hvalue.bare
  | .ifThen hcondition hthen => BareAll.cons hcondition.bare (.cons hthen.bare bareAll_nil)
  | .ifElse helse hcondition hthen =>
    BareAll.cons hcondition.bare (.cons hthen.bare (.cons helse.bare bareAll_nil))
  | .whileLoop hcondition hbody => BareAll.cons hcondition.bare (.cons hbody.bare bareAll_nil)
  | .tryCatch hbody hhandlers => by
    rw [Bare, Node.definedSymbols, hbody.bare, hhandlers.bare]
    rfl
  | .tryFinally hbody hhandlers hfinalizer => by
    rw [Bare, Node.definedSymbols, hbody.bare, hhandlers.bare, hfinalizer.bare]
    rfl
  | .block hblock => hblock.bare
  | .expr hexpr => hexpr.bare

theorem ResolvesStmts.bare {env env' : Environment} {ss : List Stmt} {ns : List Node} :
    c.ResolvesStmts enclosing env ss ns env' → BareAll ns
  | .nil => bareAll_nil
  | .cons hfirst hrest => .cons hfirst.bare hrest.bare

theorem ResolvesBlock.bare {env : Environment} {b : Block} {n : Node} :
    c.ResolvesBlock enclosing env b n → Bare n
  | .mk hstmts => hstmts.bare

theorem ResolvesHandler.bare {env : Environment} {h : Handler} {clause : Clause} :
    c.ResolvesHandler enclosing env h clause → clause.definedSymbols = []
  | .mk hpattern hguard hbody => by
    rw [Clause.definedSymbols, bare_of_simple hpattern.simple, hguard.bare, hbody.bare]
    rfl

theorem ResolvesHandlers.bare {env : Environment} {hs : List Handler} {clauses : List Clause} :
    c.ResolvesHandlers enclosing env hs clauses → Clause.definedSymbolsAll clauses = []
  | .nil => rfl
  | .cons hfirst hrest => by
    rw [Clause.definedSymbolsAll, hfirst.bare, hrest.bare]
    rfl

end

theorem ResolvesFunction.defines {env : Environment} {info : Callable} {params : List Param}
    {body : Block} {x : Extent} {n : Node}
    (h : c.ResolvesFunction enclosing env info params body x n) :
    n.definedSymbols = [info.symbol] := by
  cases h with
  | mk hstmts => rw [Node.definedSymbols, hstmts.bare]

end Bare

section Declared

/-- A definition in front of others adds its declarations in front of theirs. -/
theorem definedSymbolsAll_cons {n : Node} {ns : List Node}
    {first rest : List CheckedExceptions.Symbol} (hn : n.definedSymbols = first)
    (hns : Node.definedSymbolsAll ns = rest) :
    Node.definedSymbolsAll (n :: ns) = first ++ rest := by
  rw [Node.definedSymbolsAll, hn, hns]

mutual

/-- What is found under the name of a class is the entry of its declaration, so the class node
defines what the class declares. -/
theorem ResolvesClass.defines {enclosing : List ClassEntry} {env : Environment}
    {outer : Option String} {k : ClassDecl} {n : Node} (hfinds : c.FindsClass outer k) :
    c.ResolvesClass enclosing env k n →
      n.definedSymbols = declaredSymbols (classDeclarations c.toSite outer k)
  | .mk hinfo hmembers => by
    rw [FindsClass] at hfinds
    obtain ⟨hself, hfinds⟩ := hfinds
    cases hself.symm.trans hinfo
    rw [Node.definedSymbols, hmembers.defines hfinds, classDeclarations]
    rfl

theorem ResolvesMembers.defines {enclosing : List ClassEntry} {info : ClassEntry}
    {env env' : Environment} {owner : String} {index ctors : Nat} {ms : List Member}
    {ns : List Node} (hfinds : c.FindsMembers info owner index ctors ms) :
    c.ResolvesMembers enclosing info env index ms ns env' →
      Node.definedSymbolsAll ns = declaredSymbols (memberDeclarations c.toSite owner ctors ms)
  | .nil => by
    rw [memberDeclarations]
    rfl
  | .func hmethod hfirst hrest => by
    rw [FindsMembers] at hfinds
    cases hfinds.1.symm.trans hmethod
    rw [memberDeclarations]
    exact definedSymbolsAll_cons hfirst.defines (hrest.defines hfinds.2)
  | .ctor hctor hfirst hrest => by
    rw [FindsMembers] at hfinds
    cases hfinds.1.symm.trans hctor
    rw [memberDeclarations]
    exact definedSymbolsAll_cons hfirst.defines (hrest.defines hfinds.2)
  | .classDecl hfirst hrest => by
    rw [FindsMembers] at hfinds
    rw [memberDeclarations, declaredSymbols, List.flatMap_append]
    exact definedSymbolsAll_cons (hfirst.defines hfinds.1) (hrest.defines hfinds.2)
  | .stmt hfirst hrest => by
    rw [FindsMembers] at hfinds
    rw [memberDeclarations]
    exact definedSymbolsAll_cons hfirst.bare (hrest.defines hfinds)

end

theorem ResolvesItems.defines {env env' : Environment} {items : List Item} {ns : List Node}
    (hfinds : ∀ item ∈ items, c.FindsItem item) (h : c.ResolvesItems env items ns env') :
    Node.definedSymbolsAll ns = declaredSymbols (items.flatMap (itemDeclarations c.toSite)) := by
  induction h with
  | nil => rfl
  | exception _ ih => exact ih (List.forall_mem_cons.mp hfinds).2
  | func hinfo hfirst _ ih =>
    obtain ⟨hself, hrest⟩ := List.forall_mem_cons.mp hfinds
    cases Eq.trans (Eq.symm hself) hinfo
    rw [List.flatMap_cons, declaredSymbols, List.flatMap_append]
    exact definedSymbolsAll_cons hfirst.defines (ih hrest)
  | classDecl hfirst _ ih =>
    obtain ⟨hself, hrest⟩ := List.forall_mem_cons.mp hfinds
    rw [List.flatMap_cons, declaredSymbols, List.flatMap_append]
    exact definedSymbolsAll_cons (hfirst.defines hself) (ih hrest)
  | stmt hfirst _ ih =>
    obtain ⟨-, hrest⟩ := List.forall_mem_cons.mp hfinds
    rw [List.flatMap_cons, declaredSymbols, List.flatMap_append]
    exact definedSymbolsAll_cons hfirst.bare (ih hrest)

end Declared

end Typing.Context

namespace Typing

open CheckedExceptions.Language

/-- The tree of a program defines what the program declares, in the same order. -/
theorem definedSymbols_of_resolveProgram {s : Site} {p : Program} {program : TypedProgram}
    (h : resolveProgram s p = .ok program) :
    program.unit.definedSymbols = program.declarations.symbols := by
  obtain ⟨hdeclarations, -, ⟨body, span, env, hitems, hunit⟩, -⟩ := resolveProgram_ok h
  have hdefined := hitems.defines (Context.finds_of_ofProgram hdeclarations)
  rw [hunit, Node.definedSymbols, hdefined, (Declarations.ofProgram_ok hdeclarations).1]
  rfl

end Typing

end CheckedExceptions
