import CheckedExceptions.Proofs.Syntax.Declarations
import CheckedExceptions.Typing.Program

/-!
What stands behind `else`. In a program as such this may be any statement, but in one that was read
from a text it is a block or another conditional, so that no branch of a conditional binds a name
for the statements behind the conditional. The rule of conditionals allows nothing else, and reading
keeps what the rules say about the tree.
-/
namespace CheckedExceptions.Language

section Programs

/-- A block or a conditional. -/
def Stmt.isBranch : Stmt → Bool
  | .block _ | .ifElse _ _ _ _ => true
  | _ => false

mutual

/-- In every conditional of the statement, what stands behind `else` is a block or a conditional. -/
def Stmt.wellBranched : Stmt → Bool
  | .letBinding _ _ _ _ | .assign _ _ _ | .raise _ _ | .returning _ _ | .expr _ => true
  | .ifElse _ thenBlock none _ => thenBlock.wellBranched
  | .ifElse _ thenBlock (some elseBranch) _ =>
    thenBlock.wellBranched && (elseBranch.isBranch && elseBranch.wellBranched)
  | .whileLoop _ body _ => body.wellBranched
  | .tryCatch body handlers none _ => body.wellBranched && Handler.wellBranchedAll handlers
  | .tryCatch body handlers (some finalizer) _ =>
    body.wellBranched && (Handler.wellBranchedAll handlers && finalizer.wellBranched)
  | .block b => b.wellBranched

def Stmt.wellBranchedAll : List Stmt → Bool
  | [] => true
  | s :: ss => s.wellBranched && Stmt.wellBranchedAll ss

def Block.wellBranched : Block → Bool
  | .mk stmts _ => Stmt.wellBranchedAll stmts

def Handler.wellBranched : Handler → Bool
  | .mk _ _ body _ => body.wellBranched

def Handler.wellBranchedAll : List Handler → Bool
  | [] => true
  | h :: hs => h.wellBranched && Handler.wellBranchedAll hs

end

mutual

def ClassDecl.wellBranched : ClassDecl → Bool
  | .mk _ _ _ _ _ members _ => Member.wellBranchedAll members

def Member.wellBranched : Member → Bool
  | .func f => f.body.wellBranched
  | .ctor k => k.body.wellBranched
  | .classDecl k => k.wellBranched
  | .stmt s => s.wellBranched

def Member.wellBranchedAll : List Member → Bool
  | [] => true
  | m :: ms => m.wellBranched && Member.wellBranchedAll ms

end

def Item.wellBranched : Item → Bool
  | .exception _ => true
  | .func f => f.body.wellBranched
  | .classDecl k => k.wellBranched
  | .stmt s => s.wellBranched

def Program.wellBranched (p : Program) : Bool := p.items.all Item.wellBranched

end Programs

section Trees

/-- The node of a block or of a conditional. -/
def Tree.isBranch : Tree → Bool
  | .node .block _ _ | .node .ifStmt _ _ => true
  | _ => false

/-- In every conditional of the tree, the third part is a block or a conditional. -/
inductive Tree.Branched : Tree → Prop
  | token (t : Token) : Branched (.token t)
  | node {label : Label} {x : Option Extent} {parts : List Tree}
      (hparts : ∀ t ∈ parts, Branched t)
      (helse : label = .ifStmt → ∀ t, parts[2]? = some t → t.isBranch = true) :
      Branched (.node label x parts)

theorem Tree.Branched.parts {label : Label} {x : Option Extent} {parts : List Tree}
    (h : (Tree.node label x parts).Branched) : ∀ t ∈ parts, t.Branched := by
  cases h with
  | node hparts _ => exact hparts

theorem Tree.Branched.isBranch_else {x : Option Extent} {condition thenBlock elseBranch : Tree}
    (h : (Tree.node .ifStmt x [condition, thenBlock, elseBranch]).Branched) :
    elseBranch.isBranch = true := by
  cases h with
  | node _ helse => exact helse rfl elseBranch rfl

end Trees

namespace Derivation

theorem treesAll_append (ds ds' : List Derivation) :
    treesAll (ds ++ ds') = treesAll ds ++ treesAll ds' := by
  induction ds with
  | nil => rfl
  | cons d ds ih => rw [List.cons_append, treesAll, treesAll, ih, List.append_assoc]

theorem mem_treesAll {ds : List Derivation} {t : Tree} (h : t ∈ treesAll ds) :
    ∃ d ∈ ds, t ∈ d.trees := by
  induction ds with
  | nil => cases h
  | cons d ds ih =>
    rcases List.mem_append.mp h with h | h
    · exact ⟨d, List.mem_cons_self, h⟩
    · obtain ⟨e, he, ht⟩ := ih h
      exact ⟨e, List.mem_cons_of_mem _ he, ht⟩

end Derivation

section Derivations

open Grammar

theorem label_of_branch : ∀ p ∈ productions, p.lhs = .block ∨ p.lhs = .ifStmt →
    p.label = some .block ∨ p.label = some .ifStmt := by
  decide +kernel

theorem rhs_of_elseBranch : ∀ p ∈ productions, p.lhs = .elseBranch →
    p.label = none ∧ (p.rhs = [.nonTerminal .block] ∨ p.rhs = [.nonTerminal .ifStmt]) := by
  decide +kernel

/-- A conditional up to its second branch. -/
def conditional : List Symbol :=
  [.terminal (.word .ifKw), .terminal (.mark .leftParen), .nonTerminal .expr,
    .terminal (.mark .rightParen), .nonTerminal .block]

theorem rhs_of_ifStmt : ∀ p ∈ productions, p.label = some .ifStmt →
    p.rhs = conditional ∨
      p.rhs = conditional ++ [.terminal (.word .elseKw), .nonTerminal .elseBranch] := by
  decide +kernel

theorem isBranch_of_derives {d : Derivation} (h : Derives productions d)
    (hd : d.symbol = .nonTerminal .block ∨ d.symbol = .nonTerminal .ifStmt) :
    ∃ t, d.trees = [t] ∧ t.isBranch = true := by
  cases h with
  | leaf t => simp [Derivation.symbol] at hd
  | @node p children hproduction hsymbols hchildren =>
    simp only [Derivation.symbol, Symbol.nonTerminal.injEq] at hd
    rcases label_of_branch p hproduction hd with hlabel | hlabel
    · exact ⟨_, by rw [Derivation.trees, hlabel], rfl⟩
    · exact ⟨_, by rw [Derivation.trees, hlabel], rfl⟩

theorem isBranch_of_elseBranch {d : Derivation} (h : Derives productions d)
    (hd : d.symbol = .nonTerminal .elseBranch) : ∃ t, d.trees = [t] ∧ t.isBranch = true := by
  cases h with
  | leaf t => cases hd
  | @node p children hproduction hsymbols hchildren =>
    obtain ⟨hlabel, hrhs⟩ := rhs_of_elseBranch p hproduction (Symbol.nonTerminal.inj hd)
    -- The branch is handed on as it is.
    obtain ⟨d', rfl, hd'⟩ : ∃ d', children = [d'] ∧
        (d'.symbol = .nonTerminal .block ∨ d'.symbol = .nonTerminal .ifStmt) := by
      rw [← hsymbols] at hrhs
      simpa [List.map_eq_singleton_iff, ← exists_or, ← and_or_left] using hrhs
    obtain ⟨t, ht, hbranch⟩ := isBranch_of_derives (hchildren d' List.mem_cons_self) hd'
    refine ⟨t, ?_, hbranch⟩
    rw [Derivation.trees, hlabel]
    simp [Derivation.treesAll, ht]

/-- Up to its second branch, a conditional has two parts. -/
theorem treesAll_conditional {ds : List Derivation} (h : ∀ d ∈ ds, Derives productions d)
    (htexts : ∀ d ∈ ds, ∀ t ∈ d.tokens, t.terminal.Spells t.text.toList)
    (hds : ds.map Derivation.symbol = conditional) :
    ∃ condition thenBlock, Derivation.treesAll ds = [condition, thenBlock] := by
  have hrow := Ast.rowShape_treesAll fun d hd =>
    Ast.shape_of_derives Ast.keepsShape_productions (h d hd) (htexts d hd)
  rw [hds] at hrow
  obtain ⟨_, _, hts, rfl, _, _, rfl, rfl, _, _, rfl, ⟨condition, rfl, -⟩, hrow⟩ := hrow
  obtain ⟨_, _, rfl, rfl, _, _, rfl, ⟨x, stmts, rfl, -⟩, rfl⟩ := hrow
  exact ⟨condition, .node .block (some x) stmts, hts⟩

theorem isBranch_of_ifStmt {children : List Derivation}
    (hchildren : ∀ d ∈ children, Derives productions d)
    (htexts : ∀ d ∈ children, ∀ t ∈ d.tokens, t.terminal.Spells t.text.toList)
    (hsymbols : children.map Derivation.symbol = conditional ∨
      children.map Derivation.symbol =
        conditional ++ [.terminal (.word .elseKw), .nonTerminal .elseBranch])
    {t : Tree} (ht : (Derivation.treesAll children)[2]? = some t) : t.isBranch = true := by
  rcases hsymbols with hsymbols | hsymbols
  · obtain ⟨condition, thenBlock, htrees⟩ := treesAll_conditional hchildren htexts hsymbols
    rw [htrees] at ht
    cases ht
  · obtain ⟨front, back, rfl, hfront, hback⟩ := List.map_eq_append_iff.mp hsymbols
    obtain ⟨hderives, hderives'⟩ := List.forall_mem_append.mp hchildren
    obtain ⟨htexts, htexts'⟩ := List.forall_mem_append.mp htexts
    obtain ⟨condition, thenBlock, htrees⟩ := treesAll_conditional hderives htexts hfront
    obtain ⟨word, back, rfl, hword, hback⟩ := List.map_eq_cons_iff.mp hback
    obtain ⟨branch, rfl, hbranch⟩ := List.map_eq_singleton_iff.mp hback
    obtain ⟨hwordDerives, hbranchDerives⟩ := List.forall_mem_cons.mp hderives'
    have hnone := Ast.shape_of_derives Ast.keepsShape_productions hwordDerives
      (htexts' word List.mem_cons_self)
    rw [hword] at hnone
    obtain ⟨e, he, hise⟩ :=
      isBranch_of_elseBranch (hbranchDerives branch List.mem_cons_self) hbranch
    have hword : word.trees = [] := hnone
    rw [Derivation.treesAll_append, htrees] at ht
    simp only [Derivation.treesAll, hword, he] at ht
    cases ht
    exact hise

theorem branched_of_derives {d : Derivation} (h : Derives productions d)
    (htexts : ∀ t ∈ d.tokens, t.terminal.Spells t.text.toList) : ∀ t ∈ d.trees, t.Branched := by
  induction h with
  | leaf t =>
    rw [Derivation.trees]
    split
    · exact List.forall_mem_singleton.mpr (.token t)
    · exact List.forall_mem_nil _
  | @node p children hproduction hsymbols hchildren ih =>
    have hinside : ∀ d ∈ children, ∀ t ∈ d.tokens, t.terminal.Spells t.text.toList :=
      fun d hd t ht => htexts t (Derivation.mem_tokens_node hd ht)
    have hall : ∀ t ∈ Derivation.treesAll children, t.Branched := by
      intro t ht
      obtain ⟨d, hd, ht⟩ := Derivation.mem_treesAll ht
      exact ih d hd (hinside d hd) t ht
    rw [Derivation.trees]
    split
    · rename_i label hlabel
      refine List.forall_mem_singleton.mpr (.node hall ?_)
      rintro rfl t ht
      have hrhs := rhs_of_ifStmt p hproduction hlabel
      rw [← hsymbols] at hrhs
      exact isBranch_of_ifStmt hchildren hinside hrhs ht
    · exact hall

end Derivations

theorem FuncDecl.of_mk? {markers : List MarkerDecl} {name : String} {params : List Param}
    {result : Option String} {body : Block} {x : Extent} {f : FuncDecl}
    (h : FuncDecl.mk? markers name params result body x = some f) :
    f.body = body ∧ f.extent = x := by
  rw [FuncDecl.mk?] at h
  split at h
  · cases h
    exact ⟨rfl, rfl⟩
  · cases h

namespace Ast

/-- What is read from a branched tree is well branched. -/
def ReadsWell {α : Type} (read : Tree → Option α) (good : α → Bool) (t : Tree) : Prop :=
  t.Branched → ∀ a, read t = some a → good a = true

/-- What is read from branched trees is well branched. -/
def ReadsAllWell {α : Type} (read : List Tree → Option α) (good : α → Bool)
    (ts : List Tree) : Prop :=
  (∀ t ∈ ts, t.Branched) → ∀ a, read ts = some a → good a = true

/-- The clauses behind the body of a `try` statement. -/
def clausesWellBranched (clauses : List Handler × Option Block) : Bool :=
  Handler.wellBranchedAll clauses.1 && clauses.2.all Block.wellBranched

theorem isBranch_of_stmt? {t : Tree} {s : Stmt} (ht : t.isBranch = true) (h : stmt? t = some s) :
    s.isBranch = true := by
  revert h ht
  fun_cases stmt? t <;> simp only [Tree.isBranch, Bool.false_eq_true, false_implies, true_implies,
    Option.bind_eq_bind, Option.bind_eq_some_iff]
  case case6 =>
    rintro ⟨condition, -, thenBlock, -, ⟨⟩⟩
    rfl
  case case7 =>
    rintro ⟨condition, -, thenBlock, -, elseBranch, -, ⟨⟩⟩
    rfl
  case case11 =>
    rintro ⟨stmts, -, ⟨⟩⟩
    rfl
  case case12 => simp

theorem wellBranched_of_stmt? :
    (∀ t, ReadsWell stmt? Stmt.wellBranched t) ∧
    (∀ ts, ReadsAllWell stmts? Stmt.wellBranchedAll ts) ∧
    (∀ ts, ReadsAllWell handlers? clausesWellBranched ts) ∧
    (∀ t, ReadsWell handler? Handler.wellBranched t) ∧
    (∀ t, ReadsWell block? Block.wellBranched t) := by
  apply stmt?.mutual_induct
  case case7 =>
    intro x condition thenBlock elseBranch hthen helse ht s h
    simp only [stmt?, Option.bind_eq_bind, Option.bind_eq_some_iff] at h
    obtain ⟨e, -, b, hb, last, hlast, ⟨⟩⟩ := h
    simp only [Stmt.wellBranched, Bool.and_eq_true]
    exact ⟨hthen (ht.parts _ (by simp)) b hb, isBranch_of_stmt? ht.isBranch_else hlast,
      helse (ht.parts _ (by simp)) last hlast⟩
  case case6 | case8 =>
    intro x condition body hbody ht s h
    simp only [stmt?, Option.bind_eq_bind, Option.bind_eq_some_iff] at h
    obtain ⟨e, -, b, hb, ⟨⟩⟩ := h
    exact hbody (ht.parts _ (by simp)) b hb
  case case9 =>
    intro x body rest hrest hbody ht s h
    simp only [stmt?, Option.bind_eq_bind, Option.bind_eq_some_iff] at h
    obtain ⟨⟨handlers, finalizer⟩, hclauses, b, hb, ⟨⟩⟩ := h
    obtain ⟨htbody, htrest⟩ := List.forall_mem_cons.mp ht.parts
    have hwell := hrest htrest _ hclauses
    have hb := hbody htbody b hb
    cases finalizer <;> simp_all [clausesWellBranched, Stmt.wellBranched]
  case case11 =>
    intro x stmts hstmts ht s h
    simp only [stmt?, Option.bind_eq_bind, Option.bind_eq_some_iff] at h
    obtain ⟨ss, hss, ⟨⟩⟩ := h
    exact hstmts ht.parts ss hss
  case case13 =>
    intro x pattern body hbody ht s h
    simp only [handler?, Option.bind_eq_bind, Option.bind_eq_some_iff] at h
    obtain ⟨p, -, b, hb, ⟨⟩⟩ := h
    exact hbody (ht.parts _ (by simp)) b hb
  case case14 =>
    intro x pattern extent guard body hbody ht s h
    simp only [handler?, Option.bind_eq_bind, Option.bind_eq_some_iff] at h
    obtain ⟨p, -, g, -, b, hb, ⟨⟩⟩ := h
    exact hbody (ht.parts _ (by simp)) b hb
  case case16 =>
    intro x stmts hstmts ht s h
    simp only [block?, Option.bind_eq_bind, Option.bind_eq_some_iff] at h
    obtain ⟨ss, hss, ⟨⟩⟩ := h
    exact hstmts ht.parts ss hss
  case case19 =>
    intro t ts ht hts hall ss h
    simp only [stmts?, Option.bind_eq_bind, Option.bind_eq_some_iff] at h
    obtain ⟨s, hs, ss, hss, ⟨⟩⟩ := h
    obtain ⟨hbranched, hrest⟩ := List.forall_mem_cons.mp hall
    simp only [Stmt.wellBranchedAll, Bool.and_eq_true]
    exact ⟨ht hbranched s hs, hts hrest ss hss⟩
  case case21 =>
    intro extent body hbody hall clauses h
    simp only [handlers?, Option.bind_eq_bind, Option.bind_eq_some_iff] at h
    obtain ⟨b, hb, ⟨⟩⟩ := h
    have hbranched := hall _ List.mem_cons_self
    exact hbody (hbranched.parts _ List.mem_cons_self) b hb
  case case22 =>
    intro t ts hnot ht hts hall clauses h
    simp only [handlers?.eq_3 _ _ hnot, Option.bind_eq_bind, Option.bind_eq_some_iff] at h
    obtain ⟨handler, hhandler, ⟨handlers, finalizer⟩, hclauses, ⟨⟩⟩ := h
    obtain ⟨hbranched, hrest⟩ := List.forall_mem_cons.mp hall
    have hwell := hts hrest _ hclauses
    have hh := ht hbranched handler hhandler
    simp_all [clausesWellBranched, Handler.wellBranchedAll]
  -- Nothing that holds statements is left, or nothing that can be read.
  all_goals
    intros
    simp_all [ReadsWell, ReadsAllWell, stmts?, block?, handlers?, Option.bind_eq_some_iff,
      Stmt.wellBranched, Stmt.wellBranchedAll, Handler.wellBranchedAll, clausesWellBranched]

theorem wellBranched_of_block? {t : Tree} {b : Block} (ht : t.Branched) (h : block? t = some b) :
    b.wellBranched = true :=
  wellBranched_of_stmt?.2.2.2.2 t ht b h

theorem splitMarkers?_subset {parts rest : List Tree} {markers : List MarkerDecl}
    (h : splitMarkers? parts = some (markers, rest)) : rest ⊆ parts := by
  unfold splitMarkers? at h
  split at h
  · simp only [Option.bind_eq_bind, Option.bind_eq_some_iff] at h
    obtain ⟨ms, -, ⟨⟩⟩ := h
    exact List.subset_cons_self _ _
  · cases h
    exact List.Subset.refl _

theorem wellBranched_of_func? {x : Extent} {parts : List Tree} {f : FuncDecl}
    (hparts : ∀ t ∈ parts, t.Branched) (h : func? x parts = some f) :
    f.body.wellBranched = true := by
  simp only [func?, Option.bind_eq_bind, Option.bind_eq_some_iff] at h
  obtain ⟨⟨markers, rest⟩, hsplit, h⟩ := h
  have hrest : ∀ t ∈ rest, t.Branched := fun t ht => hparts t (splitMarkers?_subset hsplit ht)
  dsimp only at h
  split at h
  · simp only [Option.bind_eq_some_iff] at h
    obtain ⟨params, -, b, hb, hf⟩ := h
    obtain ⟨rfl, -⟩ := FuncDecl.of_mk? hf
    exact wellBranched_of_block? (hrest _ (by simp)) hb
  · simp only [Option.bind_eq_some_iff] at h
    obtain ⟨params, -, b, hb, hf⟩ := h
    obtain ⟨rfl, -⟩ := FuncDecl.of_mk? hf
    exact wellBranched_of_block? (hrest _ (by simp)) hb
  · cases h

theorem wellBranched_of_ctor? {x : Extent} {parts : List Tree} {k : CtorDecl}
    (hparts : ∀ t ∈ parts, t.Branched) (h : ctor? x parts = some k) :
    k.body.wellBranched = true := by
  simp only [ctor?, Option.bind_eq_bind, Option.bind_eq_some_iff] at h
  obtain ⟨⟨markers, rest⟩, hsplit, h⟩ := h
  have hrest : ∀ t ∈ rest, t.Branched := fun t ht => hparts t (splitMarkers?_subset hsplit ht)
  dsimp only at h
  split at h
  · simp only [Option.bind_eq_some_iff] at h
    obtain ⟨params, -, b, hb, ⟨⟩⟩ := h
    exact wellBranched_of_block? (hrest _ (by simp)) hb
  · cases h

theorem wellBranched_of_member? :
    (∀ t, ReadsWell member? Member.wellBranched t) ∧
    (∀ ts, ReadsAllWell classParts? (fun p => Member.wellBranchedAll p.members) ts) ∧
    (∀ ts, ReadsAllWell members? Member.wellBranchedAll ts) := by
  apply member?.mutual_induct
  case case1 =>
    intro x parts ht m h
    simp only [member?, Option.bind_eq_bind, Option.bind_eq_some_iff] at h
    obtain ⟨f, hf, ⟨⟩⟩ := h
    exact wellBranched_of_func? ht.parts hf
  case case2 =>
    intro x parts ht m h
    simp only [member?, Option.bind_eq_bind, Option.bind_eq_some_iff] at h
    obtain ⟨k, hk, ⟨⟩⟩ := h
    exact wellBranched_of_ctor? ht.parts hk
  case case3 =>
    intro x parts hparts ht m h
    simp only [member?, Option.bind_eq_bind, Option.bind_eq_some_iff] at h
    obtain ⟨p, hp, ⟨⟩⟩ := h
    exact hparts ht.parts p hp
  case case4 =>
    intro t hfunc hctor hclass ht m h
    simp only [member?.eq_4 _ hfunc hctor hclass, Option.bind_eq_bind,
      Option.bind_eq_some_iff] at h
    obtain ⟨s, hs, ⟨⟩⟩ := h
    exact wellBranched_of_stmt?.1 t ht s hs
  case case11 =>
    intro extent members parts hparts hmembers hall p h
    simp only [classParts?, Option.bind_eq_bind, Option.bind_eq_some_iff] at h
    obtain ⟨rest, -, ms, hms, ⟨⟩⟩ := h
    exact hmembers (hall _ List.mem_cons_self).parts ms hms
  case case14 =>
    intro t ts ht hts hall ms h
    simp only [members?, Option.bind_eq_bind, Option.bind_eq_some_iff] at h
    obtain ⟨m, hm, ms, hms, ⟨⟩⟩ := h
    obtain ⟨hbranched, hrest⟩ := List.forall_mem_cons.mp hall
    simp only [Member.wellBranchedAll, Bool.and_eq_true]
    exact ⟨ht hbranched m hm, hts hrest ms hms⟩
  case case6 =>
    intro name parts hparts hall p h
    simp only [classParts?, Option.bind_eq_bind, Option.bind_eq_some_iff] at h
    obtain ⟨rest, hrest, ⟨⟩⟩ := h
    exact hparts (List.forall_mem_cons.mp hall).2 rest hrest
  -- The parts other than the body leave the members as they are.
  case case7 | case8 | case9 | case10 =>
    intro extent inside parts hparts hall p h
    simp only [classParts?, Option.bind_eq_bind, Option.bind_eq_some_iff] at h
    obtain ⟨rest, hrest, _, -, ⟨⟩⟩ := h
    exact hparts (List.forall_mem_cons.mp hall).2 rest hrest
  all_goals
    intros
    simp_all [ReadsAllWell, classParts?, members?, Member.wellBranchedAll]

theorem wellBranched_of_item? {t : Tree} {i : Item} (ht : t.Branched) (h : item? t = some i) :
    i.wellBranched = true := by
  revert h ht
  fun_cases item? t
  case case1 x name =>
    rintro - ⟨⟩
    rfl
  case case2 x name parent =>
    rintro - ⟨⟩
    rfl
  case case3 x parts =>
    intro ht h
    simp only [Option.bind_eq_bind, Option.bind_eq_some_iff] at h
    obtain ⟨f, hf, ⟨⟩⟩ := h
    exact wellBranched_of_func? ht.parts hf
  case case4 x parts =>
    intro ht h
    simp only [Option.bind_eq_bind, Option.bind_eq_some_iff] at h
    obtain ⟨p, hp, ⟨⟩⟩ := h
    exact wellBranched_of_member?.2.1 parts ht.parts p hp
  case case5 =>
    intro ht h
    simp only [Option.bind_eq_bind, Option.bind_eq_some_iff] at h
    obtain ⟨s, hs, ⟨⟩⟩ := h
    exact wellBranched_of_stmt?.1 t ht s hs

end Ast

theorem Program.wellBranched_of_ofTree? {t : Tree} {p : Program} (ht : t.Branched)
    (h : Program.ofTree? t = some p) : p.wellBranched = true := by
  unfold ofTree? at h
  split at h
  · simp only [Option.bind_eq_bind, Option.bind_eq_some_iff] at h
    obtain ⟨items, hitems, ⟨⟩⟩ := h
    rw [wellBranched, List.all_eq_true]
    intro i hi
    have hmem : some i ∈ items.map some := List.mem_map_of_mem hi
    rw [← mapM_eq_some.mp hitems] at hmem
    obtain ⟨t, hmem, hread⟩ := List.mem_map.mp hmem
    exact Ast.wellBranched_of_item? (ht.parts t hmem) hread
  · cases h

/-- In a program that was read from a text, a block or a conditional stands behind each `else`. -/
theorem wellBranched_of_parseProgram {source : String} {p : Program}
    (h : parseProgram source = .ok p) : p.wellBranched = true := by
  obtain ⟨tree, hparse, h⟩ := ok_of_bind h
  have hprogram : Program.ofTree? tree = some p := by
    split at h
    · cases h
      assumption
    · cases h
  refine Program.wellBranched_of_ofTree? ?_ hprogram
  unfold parse at hparse
  cases hderive : derive source with
  | error e =>
    rw [hderive] at hparse
    cases hparse
  | ok d =>
    rw [hderive] at hparse
    cases hparse
    have hd := branched_of_derives (derives_of_derive hderive).1 (spells_of_derive hderive)
    rw [Derivation.tree]
    split
    · exact hd _ (by simp_all)
    · exact .node (List.forall_mem_nil _) (fun h => by cases h)

end CheckedExceptions.Language
