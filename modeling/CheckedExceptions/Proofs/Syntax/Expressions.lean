import CheckedExceptions.Proofs.Syntax.Shape

/-!
The rules of expressions keep shapes: whatever an expression is made of, it can be read.
-/
namespace CheckedExceptions.Language

namespace Ast

open Grammar

attribute [simp] expr?

variable {x : Extent} {ts : List Tree}

theorem exprs?_eq_mapM (ts : List Tree) : exprs? ts = ts.mapM expr? := by
  induction ts with
  | nil => rfl
  | cons t ts ih => simp [exprs?, ih]

theorem shape_binary (h : PartsShape [nt .expr, tok .operator, nt .selection] ts) :
    Shape .expr [.node .binary (some x) ts] := by
  obtain ⟨_, _, rfl, ⟨left, rfl, l, hl⟩, h⟩ := h
  rw [partsShape_tok rfl] at h
  obtain ⟨op, _, rfl, -, _, _, rfl, ⟨right, rfl, r, hr⟩, rfl⟩ := h
  exact ⟨_, rfl, .binary op.text l r x, by simp [hl, hr]⟩

theorem shape_methodCall
    (h : PartsShape [nt .selection, punct .dot, tok .name, punct .leftParen, opt .args,
      punct .rightParen] ts) :
    Shape .selection [.node .methodCall (some x) ts] := by
  obtain ⟨_, _, rfl, ⟨receiver, rfl, r, hr⟩, h⟩ := h
  simp only [partsShape_punct, partsShape_name, partsShape_opt] at h
  obtain ⟨name, _, rfl, -, _, _, rfl, rfl | ⟨_, args, rfl, hargs⟩, rfl⟩ := h
  · exact ⟨_, rfl, .methodCall r name.text [] x, by simp [hr]⟩
  · obtain ⟨es, hes⟩ := mapM_of_allRead hargs
    exact ⟨_, rfl, .methodCall r name.text es x, by simp [exprs?_eq_mapM, hr, hes]⟩

theorem shape_call
    (h : PartsShape [tok .name, punct .leftParen, opt .args, punct .rightParen] ts) :
    Shape .selection [.node .call (some x) ts] := by
  simp only [partsShape_punct, partsShape_name, partsShape_opt] at h
  obtain ⟨name, _, rfl, -, _, _, rfl, rfl | ⟨_, args, rfl, hargs⟩, rfl⟩ := h
  · exact ⟨_, rfl, .call name.text [] x, by simp⟩
  · obtain ⟨es, hes⟩ := mapM_of_allRead hargs
    exact ⟨_, rfl, .call name.text es x, by simp [exprs?_eq_mapM, hes]⟩

theorem shape_newExpr
    (h : PartsShape [kw .newKw, tok .name, punct .leftParen, opt .args, punct .rightParen] ts) :
    Shape .selection [.node .newExpr (some x) ts] := by
  simp only [partsShape_kw, partsShape_punct, partsShape_name, partsShape_opt] at h
  obtain ⟨name, _, rfl, -, _, _, rfl, rfl | ⟨_, args, rfl, hargs⟩, rfl⟩ := h
  · exact ⟨_, rfl, .new name.text [] x, by simp⟩
  · obtain ⟨es, hes⟩ := mapM_of_allRead hargs
    exact ⟨_, rfl, .new name.text es x, by simp [exprs?_eq_mapM, hes]⟩

theorem shape_thisCall
    (h : PartsShape [kw .thisKw, punct .leftParen, opt .args, punct .rightParen] ts) :
    Shape .selection [.node .thisCall (some x) ts] := by
  simp only [partsShape_kw, partsShape_punct, partsShape_opt] at h
  obtain ⟨_, _, rfl, rfl | ⟨_, args, rfl, hargs⟩, rfl⟩ := h
  · exact ⟨_, rfl, .thisCall [] x, by simp⟩
  · obtain ⟨es, hes⟩ := mapM_of_allRead hargs
    exact ⟨_, rfl, .thisCall es x, by simp [exprs?_eq_mapM, hes]⟩

theorem shape_args (h : PartsShape [nt .expr, opt .argTail] ts) :
    Shape .args [.node .args (some x) ts] := by
  obtain ⟨_, _, rfl, hfirst, h⟩ := h
  rw [partsShape_opt] at h
  obtain ⟨_, _, rfl, htail, rfl⟩ := h
  rw [List.append_nil]
  exact ⟨x, _, rfl, hfirst.allRead.append (allRead_of_optional htail)⟩

/-- A node over one token of an open class. -/
theorem shape_token {t : Terminal} {label : Label} (ht : t.isOpen = true)
    (hlabel : ∀ token, ∃ e, expr? (.node label (some x) [.token token]) = some e)
    (h : PartsShape [tok t] ts) : Shape .atom [.node label (some x) ts] := by
  rw [partsShape_tok ht] at h
  obtain ⟨token, _, rfl, -, rfl⟩ := h
  exact ⟨_, rfl, hlabel token⟩

/-- A node over one keyword. -/
theorem shape_keyword {k : Keyword} {label : Label}
    (hlabel : ∃ e, expr? (.node label (some x) []) = some e)
    (h : PartsShape [kw k] ts) : Shape .atom [.node label (some x) ts] := by
  rw [partsShape_kw] at h
  subst h
  exact ⟨_, rfl, hlabel⟩

theorem keepsShape_expressions : ∀ rule ∈ expressions, ∀ p ∈ rule, KeepsShape p := by
  simp only [expressions, List.forall_mem_cons]
  refine ⟨keepsShape_choice ?_, keepsShape_node (by decide) fun _ _ => shape_binary,
    keepsShape_choice ?_, keepsShape_node (by decide) fun _ _ => shape_methodCall,
    keepsShape_node (by decide) fun _ _ => shape_call,
    keepsShape_node (by decide) fun _ _ => shape_newExpr,
    keepsShape_node (by decide) fun _ _ => shape_thisCall,
    keepsShape_node (by decide) fun _ _ => shape_args,
    keepsShape_repeated rfl ?_,
    keepsShape_node (by decide) fun x _ => shape_token rfl fun t => ⟨.ref t.text x, rfl⟩,
    keepsShape_node (by decide) fun x _ => shape_token rfl fun t => ⟨.string t.text x, rfl⟩,
    keepsShape_node (by decide) fun x _ => shape_token rfl fun t => ⟨.number t.text x, rfl⟩,
    keepsShape_node (by decide) fun x _ => shape_keyword ⟨.truth true x, rfl⟩,
    keepsShape_node (by decide) fun x _ => shape_keyword ⟨.truth false x, rfl⟩,
    keepsShape_node (by decide) fun x _ => shape_keyword ⟨.this x, rfl⟩, List.forall_mem_nil _⟩
  · simp only [List.forall_mem_singleton]
    exact fun _ h => h
  · simp only [List.forall_mem_singleton]
    exact fun _ h => h
  · exact fun _ h => OneRead.allRead (rowShape_second rfl h)

end Ast

end CheckedExceptions.Language
