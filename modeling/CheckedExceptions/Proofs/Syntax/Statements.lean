import CheckedExceptions.Proofs.Syntax.Shape

/-!
The rules of statements, catch clauses and patterns keep shapes.
-/
namespace CheckedExceptions.Language

namespace Ast

open Grammar

attribute [simp] stmt? handler?

variable {x : Extent} {ts : List Tree}

theorem patterns?_eq_mapM (ts : List Tree) : patterns? ts = ts.mapM pattern? := by
  induction ts with
  | nil => rfl
  | cons t ts ih => simp [patterns?, ih]

theorem stmts?_eq_mapM (ts : List Tree) : stmts? ts = ts.mapM stmt? := by
  induction ts with
  | nil => rfl
  | cons t ts ih => simp [stmts?, ih]

theorem block?_of_shape (h : Shape .block ts) : OneRead block? ts := by
  obtain ⟨x, stmts, rfl, hstmts⟩ := h
  obtain ⟨ss, hss⟩ := mapM_of_allRead hstmts
  exact ⟨_, rfl, .mk ss x, by simp [block?, stmts?_eq_mapM, hss]⟩

theorem stmt?_of_block (h : Shape .block ts) : OneRead stmt? ts := by
  obtain ⟨x, stmts, rfl, hstmts⟩ := h
  obtain ⟨ss, hss⟩ := mapM_of_allRead hstmts
  exact ⟨_, rfl, .block (.mk ss x), by simp [stmts?_eq_mapM, hss]⟩

/-- Catch clauses, and a finalizer behind them if there is one. -/
theorem handlers?_append {handlers finalizer : List Tree} (hhandlers : AllRead handler? handlers)
    (hfinalizer : finalizer = [] ∨ Shape .finallyClause finalizer) :
    ∃ r, handlers? (handlers ++ finalizer) = some r := by
  induction handlers with
  | nil =>
    rcases hfinalizer with rfl | ⟨x, _, rfl, b, rfl, body, hbody⟩
    · exact ⟨([], none), rfl⟩
    · exact ⟨([], some body), by simp [handlers?, hbody]⟩
  | cons t handlers ih =>
    obtain ⟨⟨h, ht⟩, hrest⟩ := List.forall_mem_cons.mp hhandlers
    obtain ⟨⟨hs, last⟩, hr⟩ := ih hrest
    refine ⟨(h :: hs, last), ?_⟩
    rw [List.cons_append, handlers?.eq_def]
    split
    · rename_i heq
      cases heq
    · rename_i heq
      obtain ⟨rfl, -⟩ := List.cons.inj heq
      simp at ht
    · rename_i heq
      obtain ⟨rfl, rfl⟩ := List.cons.inj heq
      simp [ht, hr]

theorem shape_block (h : PartsShape [punct .leftBrace, opt .stmts, punct .rightBrace] ts) :
    Shape .block [.node .block (some x) ts] := by
  simp only [partsShape_punct, partsShape_opt] at h
  obtain ⟨_, _, rfl, hstmts, rfl⟩ := h
  rw [List.append_nil]
  exact ⟨x, _, rfl, allRead_of_optional hstmts⟩

theorem shape_letStmt
    (h : PartsShape [kw .letKw, tok .name, optType, punct .equal, nt .expr] ts) :
    Shape .letStmt [.node .letStmt (some x) ts] := by
  rw [partsShape_kw, partsShape_name] at h
  obtain ⟨name, _, rfl, -, _, _, rfl, htype, h⟩ := h
  rw [partsShape_punct] at h
  obtain ⟨_, _, rfl, ⟨value, rfl, v, hv⟩, rfl⟩ := h
  rcases htype with rfl | htype
  · exact ⟨_, rfl, .letBinding name.text none v x, by simp [hv]⟩
  · obtain ⟨type, rfl, -⟩ := rowShape_second rfl htype
    exact ⟨_, rfl, .letBinding name.text (some type.text) v x, by simp [hv]⟩

theorem shape_assignStmt (h : PartsShape [tok .name, punct .equal, nt .expr] ts) :
    Shape .assignStmt [.node .assignStmt (some x) ts] := by
  simp only [partsShape_punct, partsShape_name] at h
  obtain ⟨name, _, rfl, -, _, _, rfl, ⟨value, rfl, v, hv⟩, rfl⟩ := h
  exact ⟨_, rfl, .assign name.text v x, by simp [hv]⟩

theorem shape_raiseStmt (h : PartsShape [kw .raiseKw, nt .expr] ts) :
    Shape .raiseStmt [.node .raiseStmt (some x) ts] := by
  rw [partsShape_kw] at h
  obtain ⟨_, _, rfl, ⟨value, rfl, v, hv⟩, rfl⟩ := h
  exact ⟨_, rfl, .raise v x, by simp [hv]⟩

theorem shape_returnStmt (h : PartsShape [kw .returnKw, nt .expr] ts) :
    Shape .returnStmt [.node .returnStmt (some x) ts] := by
  rw [partsShape_kw] at h
  obtain ⟨_, _, rfl, ⟨value, rfl, v, hv⟩, rfl⟩ := h
  exact ⟨_, rfl, .returning v x, by simp [hv]⟩

theorem shape_ifStmt
    (h : PartsShape [kw .ifKw, punct .leftParen, nt .expr, punct .rightParen, nt .block,
      .optional [.terminal (.word .elseKw), .nonTerminal .elseBranch]] ts) :
    Shape .ifStmt [.node .ifStmt (some x) ts] := by
  rw [partsShape_kw, partsShape_punct] at h
  obtain ⟨_, _, rfl, ⟨condition, rfl, c, hc⟩, h⟩ := h
  rw [partsShape_punct] at h
  obtain ⟨_, _, rfl, hblock, _, _, rfl, helse, rfl⟩ := h
  obtain ⟨thenBlock, rfl, b, hb⟩ := block?_of_shape hblock
  rcases helse with rfl | helse
  · exact ⟨_, rfl, .ifElse c b none x, by simp [hc, hb]⟩
  · obtain ⟨elseBranch, rfl, e, he⟩ := rowShape_second rfl helse
    exact ⟨_, rfl, .ifElse c b (some e) x, by simp [hc, hb, he]⟩

theorem shape_whileStmt
    (h : PartsShape [kw .whileKw, punct .leftParen, nt .expr, punct .rightParen, nt .block] ts) :
    Shape .whileStmt [.node .whileStmt (some x) ts] := by
  rw [partsShape_kw, partsShape_punct] at h
  obtain ⟨_, _, rfl, ⟨condition, rfl, c, hc⟩, h⟩ := h
  rw [partsShape_punct] at h
  obtain ⟨_, _, rfl, hblock, rfl⟩ := h
  obtain ⟨body, rfl, b, hb⟩ := block?_of_shape hblock
  exact ⟨_, rfl, .whileLoop c b x, by simp [hc, hb]⟩

theorem shape_tryStmt
    (h : PartsShape [kw .tryKw, nt .block, opt .catches, opt .finallyClause] ts) :
    Shape .tryStmt [.node .tryStmt (some x) ts] := by
  rw [partsShape_kw] at h
  obtain ⟨_, _, rfl, hblock, h⟩ := h
  simp only [partsShape_opt] at h
  obtain ⟨_, _, rfl, hcatches, _, _, rfl, hfinalizer, rfl⟩ := h
  obtain ⟨body, rfl, b, hb⟩ := block?_of_shape hblock
  obtain ⟨⟨handlers, last⟩, hr⟩ := handlers?_append (allRead_of_optional hcatches) hfinalizer
  exact ⟨_, rfl, .tryCatch b handlers last x, by simp [hb, hr]⟩

theorem shape_finallyClause (h : PartsShape [kw .finallyKw, nt .block] ts) :
    Shape .finallyClause [.node .finallyClause (some x) ts] := by
  rw [partsShape_kw] at h
  obtain ⟨_, _, rfl, hblock, rfl⟩ := h
  rw [List.append_nil]
  exact ⟨x, _, rfl, block?_of_shape hblock⟩

theorem shape_catchClause
    (h : PartsShape [kw .catchKw, punct .leftParen, nt .pattern, opt .guard, punct .rightParen,
      nt .block] ts) :
    Shape .catchClause [.node .catchClause (some x) ts] := by
  rw [partsShape_kw, partsShape_punct] at h
  obtain ⟨_, _, rfl, ⟨pattern, rfl, p, hp⟩, h⟩ := h
  simp only [partsShape_punct, partsShape_opt] at h
  obtain ⟨_, _, rfl, hguard, _, _, rfl, hblock, rfl⟩ := h
  obtain ⟨body, rfl, b, hb⟩ := block?_of_shape hblock
  refine List.forall_mem_singleton.mpr ?_
  rcases hguard with rfl | ⟨_, _, rfl, guard, rfl, e, he⟩
  · exact ⟨.mk p none b x, by simp [hp, hb]⟩
  · exact ⟨.mk p (some e) b x, by simp [hp, hb, he]⟩

theorem shape_guard (h : PartsShape [kw .ifKw, nt .expr] ts) :
    Shape .guard [.node .guard (some x) ts] := by
  rw [partsShape_kw] at h
  obtain ⟨_, _, rfl, hexpr, rfl⟩ := h
  rw [List.append_nil]
  exact ⟨x, _, rfl, hexpr⟩

theorem shape_typePattern (h : PartsShape [tok .name, punct .colon, tok .name] ts) :
    Shape .pattern [.node .typePattern (some x) ts] := by
  simp only [partsShape_punct, partsShape_name] at h
  obtain ⟨binder, _, rfl, -, type, _, rfl, -, rfl⟩ := h
  exact ⟨_, rfl, .typed binder.text type.text x, by simp [pattern?]⟩

theorem shape_extractorPattern {args : List Tree} (name : Token) (h : AllRead pattern? args) :
    Shape .pattern [.node .extractorPattern (some x) (.token name :: args)] := by
  obtain ⟨ps, hps⟩ := mapM_of_allRead h
  exact ⟨_, rfl, .extractor name.text ps x, by simp [pattern?, patterns?_eq_mapM, hps]⟩

theorem shape_emptyExtractor
    (h : PartsShape [tok .name, punct .leftParen, punct .rightParen] ts) :
    Shape .pattern [.node .extractorPattern (some x) ts] := by
  simp only [partsShape_punct, partsShape_name] at h
  obtain ⟨name, _, rfl, -, rfl⟩ := h
  exact shape_extractorPattern name (List.forall_mem_nil _)

theorem shape_fullExtractor
    (h : PartsShape [tok .name, punct .leftParen, nt .pattern, opt .patternTail,
      punct .rightParen] ts) :
    Shape .pattern [.node .extractorPattern (some x) ts] := by
  rw [partsShape_name] at h
  obtain ⟨name, _, rfl, -, h⟩ := h
  rw [partsShape_punct] at h
  obtain ⟨_, _, rfl, hfirst, h⟩ := h
  simp only [partsShape_punct, partsShape_opt] at h
  obtain ⟨_, _, rfl, htail, rfl⟩ := h
  rw [List.append_nil]
  exact shape_extractorPattern name (hfirst.allRead.append (allRead_of_optional htail))

theorem shape_bindPattern (h : PartsShape [tok .name] ts) :
    Shape .pattern [.node .bindPattern (some x) ts] := by
  rw [partsShape_name] at h
  obtain ⟨binder, _, rfl, -, rfl⟩ := h
  exact ⟨_, rfl, .bind binder.text x, by simp [pattern?]⟩

theorem shape_exprStmt (h : PartsShape [nt .expr] ts) :
    Shape .exprStmt [.node .exprStmt (some x) ts] := by
  obtain ⟨_, _, rfl, ⟨expr, rfl, e, he⟩, rfl⟩ := h
  exact ⟨_, rfl, .expr e, by simp [he]⟩

theorem keepsShape_statements : ∀ rule ∈ statements, ∀ p ∈ rule, KeepsShape p := by
  simp only [statements, List.forall_mem_cons]
  refine ⟨keepsShape_choice ?_, keepsShape_node (by decide) fun _ _ => shape_block,
    keepsShape_repeated rfl ?_, keepsShape_node (by decide) fun _ _ => shape_letStmt,
    keepsShape_node (by decide) fun _ _ => shape_assignStmt,
    keepsShape_node (by decide) fun _ _ => shape_raiseStmt,
    keepsShape_node (by decide) fun _ _ => shape_returnStmt,
    keepsShape_node (by decide) fun _ _ => shape_ifStmt, keepsShape_choice ?_,
    keepsShape_node (by decide) fun _ _ => shape_whileStmt,
    keepsShape_node (by decide) fun _ _ => shape_tryStmt, keepsShape_repeated rfl ?_,
    keepsShape_node (by decide) fun _ _ => shape_finallyClause,
    keepsShape_node (by decide) fun _ _ => shape_catchClause,
    keepsShape_node (by decide) fun _ _ => shape_guard,
    keepsShape_node (by decide) fun _ _ => shape_typePattern,
    keepsShape_node (by decide) fun _ _ => shape_emptyExtractor,
    keepsShape_node (by decide) fun _ _ => shape_fullExtractor, keepsShape_repeated rfl ?_,
    keepsShape_node (by decide) fun _ _ => shape_bindPattern,
    keepsShape_node (by decide) fun _ _ => shape_exprStmt, List.forall_mem_nil _⟩
  · simp only [List.forall_mem_cons]
    exact ⟨fun _ h => h, fun _ h => h, fun _ h => h, fun _ h => h, fun _ h => h, fun _ h => h,
      fun _ h => h, fun _ => stmt?_of_block, fun _ h => h, List.forall_mem_nil _⟩
  · exact fun _ h => OneRead.allRead (rowShape_single h)
  · simp only [List.forall_mem_cons]
    exact ⟨fun _ => stmt?_of_block, fun _ h => h, List.forall_mem_nil _⟩
  · exact fun _ h => rowShape_single h
  · exact fun _ h => OneRead.allRead (rowShape_second rfl h)

end Ast

end CheckedExceptions.Language
