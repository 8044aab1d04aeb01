import CheckedExceptions.Proofs.Syntax.Expressions
import CheckedExceptions.Proofs.Syntax.Statements

/-!
The rules of declarations keep shapes. With those of statements and expressions they are all rules
of the grammar, so every text that can be parsed is a program.
-/
namespace CheckedExceptions.Language

namespace Ast

open Grammar

variable {x : Extent} {ts : List Tree}

theorem members?_eq_mapM (ts : List Tree) : members? ts = ts.mapM member? := by
  induction ts with
  | nil => rfl
  | cons t ts ih => simp [members?, ih]

/-- A statement is a statement wherever it stands. -/
theorem item?_of_stmt? {t : Tree} {s : Stmt} (h : stmt? t = some s) :
    item? t = some (.stmt s) := by
  unfold item?
  split
  · simp at h
  · simp at h
  · simp at h
  · simp at h
  · simp [h]

theorem member?_of_stmt? {t : Tree} {s : Stmt} (h : stmt? t = some s) :
    member? t = some (.stmt s) := by
  unfold member?
  split
  · simp at h
  · simp at h
  · simp at h
  · simp [h]

theorem shape_exceptionDecl
    (h : PartsShape [kw .exceptionKw, tok .name,
      .optional [.terminal (.word .extendsKw), .terminal .name]] ts) :
    Shape .exceptionDecl [.node .exceptionDecl (some x) ts] := by
  rw [partsShape_kw, partsShape_name] at h
  obtain ⟨name, _, rfl, -, _, _, rfl, hparent, rfl⟩ := h
  refine List.forall_mem_singleton.mpr ?_
  rcases hparent with rfl | hparent
  · exact ⟨.exception ⟨name.text, none, x⟩, rfl⟩
  · obtain ⟨parent, rfl, -⟩ := rowShape_second rfl hparent
    exact ⟨.exception ⟨name.text, some parent.text, x⟩, rfl⟩

/-- A node over a nonterminal whose trees are all read. -/
theorem shape_wrapped {α : Type} {read : Tree → Option α} {n : NonTerminal} {label : Label}
    (hn : Shape n = AllRead read) (h : PartsShape [nt n] ts) :
    IsNode label (fun _ => AllRead read) [.node label (some x) ts] := by
  obtain ⟨_, _, rfl, hread, rfl⟩ := h
  rw [List.append_nil]
  exact ⟨x, _, rfl, hn ▸ hread⟩

theorem shape_marker
    (h : PartsShape [punct .atSign, tok .name, opt .typeArgs, opt .markerArgs] ts) :
    Shape .marker [.node .marker (some x) ts] := by
  rw [partsShape_punct, partsShape_name] at h
  obtain ⟨name, _, rfl, -, h⟩ := h
  simp only [partsShape_opt] at h
  obtain ⟨_, _, rfl, htypes, _, _, rfl, hargs, rfl⟩ := h
  refine List.forall_mem_singleton.mpr ?_
  rcases htypes with rfl | ⟨_, types, rfl, htypes⟩
  · rcases hargs with rfl | ⟨_, args, rfl, hargs⟩
    · exact ⟨⟨name.text, [], [], x⟩, rfl⟩
    · obtain ⟨as, has⟩ := mapM_of_allRead hargs
      exact ⟨⟨name.text, [], as, x⟩, by simp [marker?, has]⟩
  · obtain ⟨us, hus⟩ := mapM_of_allRead htypes
    rcases hargs with rfl | ⟨_, args, rfl, hargs⟩
    · exact ⟨⟨name.text, us, [], x⟩, by simp [marker?, hus]⟩
    · obtain ⟨as, has⟩ := mapM_of_allRead hargs
      exact ⟨⟨name.text, us, as, x⟩, by simp [marker?, hus, has]⟩

theorem shape_typeArgs
    (h : PartsShape [punct .leftBracket, tok .name, opt .typeArgTail, punct .rightBracket] ts) :
    Shape .typeArgs [.node .typeArgs (some x) ts] := by
  simp only [partsShape_punct, partsShape_name, partsShape_opt] at h
  obtain ⟨name, _, rfl, -, _, _, rfl, htail, rfl⟩ := h
  rw [List.append_nil]
  exact ⟨x, _, rfl, List.forall_mem_cons.mpr ⟨⟨name.text, rfl⟩, allRead_of_optional htail⟩⟩

/-- A node over an empty pair of brackets. -/
theorem shape_emptyBrackets {α : Type} {read : Tree → Option α} {label : Label}
    (h : PartsShape [punct .leftParen, punct .rightParen] ts) :
    IsNode label (fun _ => AllRead read) [.node label (some x) ts] := by
  simp only [partsShape_punct] at h
  subst h
  exact ⟨x, [], rfl, List.forall_mem_nil _⟩

/-- A node over a list in brackets. -/
theorem shape_fullBrackets {α : Type} {read : Tree → Option α} {label : Label}
    {element tail : NonTerminal} (helement : Shape element = AllRead read)
    (htail : Shape tail = AllRead read)
    (h : PartsShape [punct .leftParen, nt element, opt tail, punct .rightParen] ts) :
    IsNode label (fun _ => AllRead read) [.node label (some x) ts] := by
  rw [partsShape_punct] at h
  obtain ⟨first, _, rfl, hfirst, h⟩ := h
  change Shape element first at hfirst
  rw [helement] at hfirst
  simp only [partsShape_punct, partsShape_opt, htail] at h
  obtain ⟨_, _, rfl, hrest, rfl⟩ := h
  rw [List.append_nil]
  exact ⟨x, _, rfl, hfirst.append (allRead_of_optional hrest)⟩

theorem shape_classLiteral
    (h : PartsShape [kw .classOfKw, punct .leftBracket, tok .name, punct .rightBracket] ts) :
    Shape .markerArg [.node .classLiteral (some x) ts] := by
  simp only [partsShape_kw, partsShape_punct, partsShape_name] at h
  obtain ⟨name, _, rfl, -, rfl⟩ := h
  exact List.forall_mem_singleton.mpr ⟨.classLiteral name.text, rfl⟩

theorem shape_constantArg {t : Terminal} {label : Label} (ht : t.isOpen = true)
    (hlabel : ∀ token, ∃ a, markerArg? (.node label (some x) [.token token]) = some a)
    (h : PartsShape [tok t] ts) : Shape .markerArg [.node label (some x) ts] := by
  rw [partsShape_tok ht] at h
  obtain ⟨token, _, rfl, -, rfl⟩ := h
  exact List.forall_mem_singleton.mpr (hlabel token)

theorem shape_param (h : PartsShape [tok .name, punct .colon, tok .name] ts) :
    Shape .param [.node .param (some x) ts] := by
  simp only [partsShape_punct, partsShape_name] at h
  obtain ⟨name, _, rfl, -, type, _, rfl, -, rfl⟩ := h
  exact List.forall_mem_singleton.mpr ⟨⟨name.text, type.text⟩, rfl⟩

/-- Markers are split off whatever stands behind them. -/
theorem splitMarkers?_of_shape {front : List Tree} (h : front = [] ∨ Shape .markers front) :
    ∃ ms, ∀ back, splitMarkers? back = some ([], back) →
      splitMarkers? (front ++ back) = some (ms, back) := by
  rcases h with rfl | ⟨_, markers, rfl, hmarkers⟩
  · exact ⟨[], fun _ hback => hback⟩
  · obtain ⟨ms, hms⟩ := mapM_of_allRead hmarkers
    exact ⟨ms, fun _ _ => by simp [splitMarkers?, hms]⟩

theorem shape_funcDef
    (h : PartsShape [opt .markers, kw .defKw, tok .name, nt .paramsDecl, optType, nt .block] ts) :
    Shape .funcDef [.node .funcDef (some x) ts] := by
  rw [partsShape_opt] at h
  obtain ⟨_, _, rfl, hmarkers, h⟩ := h
  rw [partsShape_kw, partsShape_name] at h
  obtain ⟨name, _, rfl, htext, _, _, rfl, ⟨_, params, rfl, hparams⟩, h⟩ := h
  obtain ⟨_, _, rfl, htype, _, _, rfl, hblock, rfl⟩ := h
  obtain ⟨body, rfl, b, hb⟩ := block?_of_shape hblock
  obtain ⟨ps, hps⟩ := mapM_of_allRead hparams
  obtain ⟨ms, hms⟩ := splitMarkers?_of_shape hmarkers
  have hdot : '.' ∉ name.text.toList := htext.undotted
  refine ⟨x, _, rfl, ?_⟩
  rcases htype with rfl | htype
  · refine ⟨⟨ms, name.text, ps, none, b, x, hdot⟩, ?_⟩
    rw [func?, hms]
    · simp [hps, hb, FuncDecl.mk?, hdot]
    · rfl
  · obtain ⟨type, rfl, -⟩ := rowShape_second rfl htype
    refine ⟨⟨ms, name.text, ps, some type.text, b, x, hdot⟩, ?_⟩
    rw [func?, hms]
    · simp [hps, hb, FuncDecl.mk?, hdot]
    · rfl

theorem shape_ctorDef
    (h : PartsShape [opt .markers, kw .defKw, kw .thisKw, nt .paramsDecl, nt .block] ts) :
    Shape .ctorDef [.node .ctorDef (some x) ts] := by
  rw [partsShape_opt] at h
  obtain ⟨_, _, rfl, hmarkers, h⟩ := h
  rw [partsShape_kw, partsShape_kw] at h
  obtain ⟨_, _, rfl, ⟨_, params, rfl, hparams⟩, _, _, rfl, hblock, rfl⟩ := h
  obtain ⟨body, rfl, b, hb⟩ := block?_of_shape hblock
  obtain ⟨ps, hps⟩ := mapM_of_allRead hparams
  obtain ⟨ms, hms⟩ := splitMarkers?_of_shape hmarkers
  refine ⟨x, _, rfl, ⟨ms, ps, b, x⟩, ?_⟩
  rw [ctor?, hms]
  · simp [hps, hb]
  · rfl

/-- The parts of a class are read one after the other. -/
def ClassRead (ts : List Tree) : Prop := ∃ c, classParts? ts = some c

theorem classRead_nil : ClassRead [] := ⟨{}, rfl⟩

theorem classRead_name {back : List Tree} (hback : ClassRead back) (name : Token) :
    ClassRead (.token name :: back) := by
  obtain ⟨c, hc⟩ := hback
  exact ⟨{ c with name := name.text }, by simp [classParts?, hc]⟩

/-- A part that may be missing, and that is read by reading what it holds. -/
theorem classRead_optional {α : Type} {read : Tree → Option α} {label : Label}
    (hread : ∀ x parts back c as, classParts? back = some c → parts.mapM read = some as →
      ClassRead (.node label (some x) parts :: back))
    {front back : List Tree} (hback : ClassRead back)
    (hfront : front = [] ∨ IsNode label (fun _ => AllRead read) front) :
    ClassRead (front ++ back) := by
  rcases hfront with rfl | ⟨x, parts, rfl, hparts⟩
  · exact hback
  · obtain ⟨c, hc⟩ := hback
    obtain ⟨as, has⟩ := mapM_of_allRead hparts
    exact hread x parts back c as hc has

theorem shape_classDef
    (h : PartsShape [opt .markers, kw .classKw, tok .name, opt .paramsDecl, opt .ctorMarkers,
      opt .extendsClause, nt .classBody] ts) :
    Shape .classDef [.node .classDef (some x) ts] := by
  simp only [partsShape_kw, partsShape_name, partsShape_opt] at h
  obtain ⟨_, _, rfl, hmarkers, name, _, rfl, -, _, _, rfl, hparams, h⟩ := h
  obtain ⟨_, _, rfl, hctorMarkers, _, _, rfl, hextends, _, _, rfl, hbody, rfl⟩ := h
  -- The parts are read from the last one to the first, each in front of those read before.
  have hback := classRead_optional (fun _ _ _ c ms hc hms =>
    ⟨{ c with members := ms }, by simp [classParts?, members?_eq_mapM, hc, hms]⟩)
    classRead_nil (Or.inr hbody)
  have hback := classRead_optional (fun _ _ _ c ns hc hns =>
    ⟨{ c with parents := ns }, by simp [classParts?, hc, hns]⟩) hback hextends
  have hback := classRead_optional (fun _ _ _ c ms hc hms =>
    ⟨{ c with ctorMarkers := ms }, by simp [classParts?, hc, hms]⟩) hback hctorMarkers
  have hback := classRead_optional (fun _ _ _ c ps hc hps =>
    ⟨{ c with params := ps }, by simp [classParts?, hc, hps]⟩) hback hparams
  have hback := classRead_name hback name
  have hwhole := classRead_optional (fun _ _ _ c ms hc hms =>
    ⟨{ c with markers := ms }, by simp [classParts?, hc, hms]⟩) hback hmarkers
  exact ⟨x, _, rfl, hwhole⟩

theorem shape_extendsClause (h : PartsShape [kw .extendsKw, tok .name, opt .mixinTail] ts) :
    Shape .extendsClause [.node .extendsClause (some x) ts] := by
  simp only [partsShape_kw, partsShape_name, partsShape_opt] at h
  obtain ⟨name, _, rfl, -, _, _, rfl, htail, rfl⟩ := h
  rw [List.append_nil]
  exact ⟨x, _, rfl, List.forall_mem_cons.mpr ⟨⟨name.text, rfl⟩, allRead_of_optional htail⟩⟩

theorem shape_classBody (h : PartsShape [punct .leftBrace, opt .members, punct .rightBrace] ts) :
    Shape .classBody [.node .classBody (some x) ts] := by
  simp only [partsShape_punct, partsShape_opt] at h
  obtain ⟨_, _, rfl, hmembers, rfl⟩ := h
  rw [List.append_nil]
  exact ⟨x, _, rfl, allRead_of_optional hmembers⟩

theorem member?_of_shape {n : NonTerminal} (hn : n ∈ [.funcDef, .ctorDef, .classDef, .stmt])
    (h : Shape n ts) : AllRead member? ts := by
  simp only [List.mem_cons, List.not_mem_nil, or_false] at hn
  rcases hn with rfl | rfl | rfl | rfl
  · obtain ⟨y, parts, rfl, f, hf⟩ := h
    exact List.forall_mem_singleton.mpr ⟨.func f, by simp [member?, hf]⟩
  · obtain ⟨y, parts, rfl, c, hc⟩ := h
    exact List.forall_mem_singleton.mpr ⟨.ctor c, by simp [member?, hc]⟩
  · obtain ⟨y, parts, rfl, c, hc⟩ := h
    exact List.forall_mem_singleton.mpr ⟨.classDecl (c.toDecl y), by simp [member?, hc]⟩
  · obtain ⟨t, rfl, s, hs⟩ := h
    exact List.forall_mem_singleton.mpr ⟨.stmt s, member?_of_stmt? hs⟩

theorem item?_of_shape {n : NonTerminal} (hn : n ∈ [.exceptionDecl, .funcDef, .classDef, .stmt])
    (h : Shape n ts) : AllRead item? ts := by
  simp only [List.mem_cons, List.not_mem_nil, or_false] at hn
  rcases hn with rfl | rfl | rfl | rfl
  · exact h
  · obtain ⟨y, parts, rfl, f, hf⟩ := h
    exact List.forall_mem_singleton.mpr ⟨.func f, by simp [item?, hf]⟩
  · obtain ⟨y, parts, rfl, c, hc⟩ := h
    exact List.forall_mem_singleton.mpr ⟨.classDecl (c.toDecl y), by simp [item?, hc]⟩
  · obtain ⟨t, rfl, s, hs⟩ := h
    exact List.forall_mem_singleton.mpr ⟨.stmt s, item?_of_stmt? hs⟩

theorem keepsShape_declarations : ∀ rule ∈ declarations, ∀ p ∈ rule, KeepsShape p := by
  simp only [declarations, List.forall_mem_cons]
  refine ⟨keepsShape_node (by decide) fun _ _ => shape_exceptionDecl,
    keepsShape_node (by decide) fun _ _ => shape_wrapped (n := .markerSeq) rfl,
    keepsShape_node (by decide) fun _ _ => shape_wrapped (n := .markerSeq) rfl,
    keepsShape_repeated rfl fun _ => rowShape_single,
    keepsShape_node (by decide) fun _ _ => shape_marker,
    keepsShape_node (by decide) fun _ _ => shape_typeArgs,
    keepsShape_repeated rfl fun _ h => allRead_names (rowShape_second rfl h),
    keepsShape_node (by decide) fun _ _ => shape_emptyBrackets,
    keepsShape_node (by decide) fun _ _ => shape_fullBrackets rfl rfl,
    keepsShape_repeated rfl fun _ => rowShape_second rfl,
    keepsShape_node (by decide) fun _ _ => shape_classLiteral,
    keepsShape_node (by decide) fun _ _ => shape_constantArg rfl fun t => ⟨.string t.text, rfl⟩,
    keepsShape_node (by decide) fun _ _ => shape_constantArg rfl fun t => ⟨.number t.text, rfl⟩,
    keepsShape_node (by decide) fun _ _ => shape_constantArg rfl fun t => ⟨.name t.text, rfl⟩,
    keepsShape_node (by decide) fun _ _ => shape_funcDef,
    keepsShape_node (by decide) fun _ _ => shape_ctorDef,
    keepsShape_node (by decide) fun _ _ => shape_emptyBrackets,
    keepsShape_node (by decide) fun _ _ => shape_fullBrackets rfl rfl,
    keepsShape_repeated rfl fun _ => rowShape_second rfl,
    keepsShape_node (by decide) fun _ _ => shape_param,
    keepsShape_node (by decide) fun _ _ => shape_classDef,
    keepsShape_node (by decide) fun _ _ => shape_extendsClause,
    keepsShape_repeated rfl fun _ h => allRead_names (rowShape_second rfl h),
    keepsShape_node (by decide) fun _ _ => shape_classBody,
    keepsShape_repeated rfl fun _ => rowShape_single,
    keepsShape_choice fun _ hn _ => member?_of_shape hn, List.forall_mem_nil _⟩

/-- The only rule whose node may cover no text. -/
theorem keepsShape_start : ∀ p ∈ node .start .start [opt .items], KeepsShape p := by
  intro p hp y ts _ hrow
  obtain ⟨rhs, hrhs, rfl⟩ := List.mem_map.mp hp
  have h := partsShape_of_expand hrhs hrow
  rw [partsShape_opt] at h
  obtain ⟨_, _, rfl, hitems, rfl⟩ := h
  rw [List.append_nil]
  exact ⟨y, _, rfl, allRead_of_optional hitems⟩

theorem keepsShape_productions : ∀ p ∈ productions, KeepsShape p := by
  simp only [productions, List.forall_mem_cons, List.forall_mem_append, List.forall_mem_flatten]
  refine ⟨fun _ _ _ _ => trivial, ⟨⟨⟨⟨⟨keepsShape_start, ?_⟩, ?_⟩, ?_⟩, ?_⟩, ?_⟩⟩
  · exact keepsShape_repeated rfl fun _ => rowShape_single
  · exact keepsShape_choice fun _ hn _ => item?_of_shape hn
  · exact keepsShape_declarations
  · exact keepsShape_statements
  · exact keepsShape_expressions

end Ast

/-- The tree of every text that can be parsed is that of a program. -/
theorem ofTree?_of_parse {source : String} {tree : Tree} (h : parse source = .ok tree) :
    ∃ program, Program.ofTree? tree = some program := by
  unfold parse at h
  cases hderive : derive source with
  | error e =>
    rw [hderive] at h
    cases h
  | ok d =>
    rw [hderive] at h
    cases h
    obtain ⟨hd, hstart⟩ := derives_of_derive hderive
    have hshape := Ast.shape_of_derives Ast.keepsShape_productions hd (spells_of_derive hderive)
    rw [hstart] at hshape
    obtain ⟨x, items, htrees, hitems⟩ := hshape
    obtain ⟨is, his⟩ := Ast.mapM_of_allRead hitems
    refine ⟨⟨is, x⟩, ?_⟩
    simp [Derivation.tree, htrees, Program.ofTree?, his]

end CheckedExceptions.Language
