import CheckedExceptions.Proofs.Layers
import Mathlib.Data.List.Basic

/-!
Definitions are propagation points of their own. Whatever stands around a definition, its findings
are those it has alone, and they are put into the findings of the surroundings at a place that does
not depend on the definition. So neither catch points nor declarations further out change them, and
the findings of a unit of definitions are those of the definitions, one after the other.
-/
namespace CheckedExceptions

open Event

namespace Node

theorem trace_of_isPoint (bases : Symbol → List Symbol) {d : Node} (h : d.isPoint = true) :
    d.trace bases = [] := by
  cases d with
  | unit | classDef | funcDef => rw [trace]
  | _ => cases h

/-- To what stands around it, a definition looks like a block. -/
theorem sameFace_block_of_isPoint (span : Span) {d : Node} (h : d.isPoint = true) :
    (Node.plain .block [] span).SameFace d := by
  cases d with
  | unit | classDef | funcDef => exact ⟨rfl, rfl, rfl⟩
  | _ => cases h

/-- Nothing escapes from a definition, so the root around it has nothing to report. -/
theorem allFindings_of_isPoint (r : Rules) {d : Node} (h : d.isPoint = true) :
    d.allFindings r = d.findings r := by
  rw [allFindings, trace_of_isPoint r.overridden h]
  exact List.append_nil _

end Node

namespace Layer

variable {n n' : Node}

theorem content_congr (bases : Symbol → List Symbol) (l : Layer) (hface : n.SameFace n')
    (htrace : n'.trace bases = n.trace bases) : l.content bases n' = l.content bases n := by
  obtain ⟨pre, post, -, haround⟩ := l.content_split bases n
  rw [haround n' hface, haround n (.refl n), htrace]

theorem trace_fill_congr (bases : Symbol → List Symbol) (l : Layer) (hface : n.SameFace n')
    (htrace : n'.trace bases = n.trace bases) :
    (l.fill n').trace bases = (l.fill n).trace bases := by
  cases hpoint : l.isPoint with
  | true => rw [trace_fill_point bases hpoint, trace_fill_point bases hpoint]
  | false =>
    rw [trace_fill bases hpoint, trace_fill bases hpoint]
    exact content_congr bases l hface htrace

/-- Inside layers that the walk goes into, the findings of a node stand between findings that depend
on its face and its trace only. -/
theorem findings_fillAll_around (r : Rules) (layers : List Layer)
    (hopen : ∀ l ∈ layers, l.isOpen = true) (n : Node) :
    ∃ before after, ∀ n', n.SameFace n' → n'.trace r.overridden = n.trace r.overridden →
      (fillAll layers n').findings r = before ++ (n'.findings r ++ after) ∧
        (fillAll layers n').trace r.overridden = (fillAll layers n).trace r.overridden := by
  -- Outwards over the layers: each adds findings on both sides, and reports what leaves it.
  induction layers generalizing n with
  | nil => exact ⟨[], [], fun n' _ htrace => ⟨(List.append_nil _).symm, htrace⟩⟩
  | cons l layers ih =>
    obtain ⟨hl, hlayers⟩ := List.forall_mem_cons.mp hopen
    obtain ⟨before, after, hlayer⟩ := l.findings_around r hl
    obtain ⟨before', after', houter⟩ := ih hlayers (l.fill n)
    refine ⟨before' ++ before, after ++ (l.leaving r n ++ after'), ?_⟩
    intro n' hface htrace
    have hleaving : l.leaving r n' = l.leaving r n := by
      unfold leaving
      rw [content_congr r.overridden l hface htrace]
    obtain ⟨hfindings, htrace'⟩ := houter (l.fill n') (l.sameFace_fill n n')
      (trace_fill_congr r.overridden l hface htrace)
    refine ⟨?_, htrace'⟩
    calc (fillAll layers (l.fill n')).findings r
        = before' ++ ((l.fill n').findings r ++ after') := hfindings
      _ = before' ++ before ++ (n'.findings r ++ (after ++ (l.leaving r n ++ after'))) := by
        rw [hlayer n', hleaving]
        simp only [List.append_assoc]

end Layer

/-- A node that does nothing. -/
def emptyBlock : Node := .plain .block [] {}

/-- All findings around a definition are those around an empty block, cut at a place that does not
depend on the definition, with its own findings between the two parts. -/
theorem allFindings_fillAll_definition (r : Rules) (layers : List Layer)
    (hopen : ∀ l ∈ layers, l.isOpen = true) :
    ∃ before after, (Layer.fillAll layers emptyBlock).allFindings r = before ++ after ∧
      ∀ d : Node, d.isPoint = true →
        (Layer.fillAll layers d).allFindings r = before ++ (d.allFindings r ++ after) := by
  obtain ⟨before, after, haround⟩ := Layer.findings_fillAll_around r layers hopen emptyBlock
  refine ⟨before, after ++ unhandled r.classification []
    ((Layer.fillAll layers emptyBlock).trace r.overridden), ?_, ?_⟩
  · have hempty : emptyBlock.findings r = [] := by
      rw [emptyBlock, Node.findings, Node.findingsAll]
    obtain ⟨hfindings, -⟩ := haround emptyBlock (.refl _) rfl
    rw [Node.allFindings, hfindings, hempty, List.nil_append, List.append_assoc]
  · intro d hd
    have htrace : d.trace r.overridden = emptyBlock.trace r.overridden := by
      rw [Node.trace_of_isPoint r.overridden hd, emptyBlock, Node.trace, Node.traceAll]
    obtain ⟨hfindings, htrace'⟩ := haround d (Node.sameFace_block_of_isPoint {} hd) htrace
    rw [Node.allFindings_of_isPoint r hd, Node.allFindings, hfindings, htrace']
    simp only [List.append_assoc]

/-- Definitions in a row find what each of them finds, and let nothing escape. -/
theorem findingsAll_definitions (r : Rules) (defs : List Node)
    (hdefs : ∀ d ∈ defs, d.isPoint = true) :
    Node.findingsAll r defs = defs.flatMap (·.allFindings r) ∧
      Node.traceAll r.overridden defs = [] := by
  induction defs with
  | nil => exact ⟨rfl, rfl⟩
  | cons d defs ih =>
    obtain ⟨hd, hrest⟩ := List.forall_mem_cons.mp hdefs
    obtain ⟨hfindings, htrace⟩ := ih hrest
    constructor
    · rw [Node.findingsAll, hfindings, ← Node.allFindings_of_isPoint r hd, List.flatMap_cons]
    · rw [Node.traceAll, htrace, Node.trace_of_isPoint r.overridden hd]
      rfl

/-- The run over any tree around a definition finds what it finds around an empty block, with the
findings of the definition put in at one place, which the tree around it determines. In particular a
run over a unit of definitions finds what the runs over the definitions find, in order. -/
theorem definitions_stand_alone (r : Rules) :
    (∀ (layers : List Layer) (found : List Finding), (∀ l ∈ layers, l.isOpen = true) →
      Flow.Finds r (Layer.fillAll layers emptyBlock) found →
      ∃ before after, found = before ++ after ∧
        ∀ (d : Node) (own : List Finding), d.isPoint = true → Flow.Finds r d own →
          Flow.Finds r (Layer.fillAll layers d) (before ++ (own ++ after))) ∧
    ∀ (defs : List (Node × List Finding)) (span : Span),
      (∀ d ∈ defs, d.1.isPoint = true ∧ Flow.Finds r d.1 d.2) →
      Flow.Finds r (.unit (defs.map Prod.fst) span) (defs.flatMap Prod.snd) := by
  constructor
  · intro layers found hopen hfound
    obtain ⟨hsound, rfl⟩ := Flow.finds_iff.mp hfound
    obtain ⟨before, after, hsplit, hdef⟩ := allFindings_fillAll_definition r layers hopen
    refine ⟨before, after, hsplit, ?_⟩
    intro d own hd hown
    obtain ⟨hdsound, rfl⟩ := Flow.finds_iff.mp hown
    refine Flow.finds_iff.mpr ⟨?_, (hdef d hd).symm⟩
    exact Layer.sound_fillAll_of_sameFace (Node.sameFace_block_of_isPoint {} hd)
      (fun _ => hdsound) layers hsound
  · intro defs span hdefs
    have hown : defs.flatMap Prod.snd = (defs.map Prod.fst).flatMap (·.allFindings r) := by
      rw [List.flatMap_map]
      apply List.flatMap_congr
      intro d hd
      exact (Flow.finds_iff.mp (hdefs d hd).2).2
    have hpoints : ∀ d ∈ defs.map Prod.fst, d.isPoint = true :=
      List.forall_mem_map.mpr fun d hd => (hdefs d hd).1
    obtain ⟨hfindings, htrace⟩ := findingsAll_definitions r _ hpoints
    refine Flow.finds_iff.mpr ⟨?_, ?_⟩
    · rw [Node.sound_unit, List.forall_mem_map]
      exact fun d hd => (Flow.finds_iff.mp (hdefs d hd).2).1
    · rw [Node.allFindings_of_isPoint r rfl, Node.findings, hfindings, htrace, hown]
      exact (List.append_nil _).symm

/-- A definition at the given line that raises a type there. -/
def raisingAt (line : Int) (name : String) : Node :=
  .funcDef ⟨"f", .function, []⟩ [] [raiseAt line name] {}

/-- A place protected against a type, with a definition in front of it and a raise behind it. -/
def protectedPlace : List Layer :=
  [.protectedBody [ignoring "IOException"] .absent {},
    .unit [raisingAt 1 "IOException"] [raiseAt 9 "InterruptedException"] {}]

theorem definitions_stand_alone_when_protected :
    ∃ before after,
      [Finding.unhandled { line := some 1 } ⟨"IOException"⟩,
        .unhandled { line := some 9 } ⟨"InterruptedException"⟩] = before ++ after ∧
      Flow.Finds standardRules (Layer.fillAll protectedPlace (raisingAt 5 "IOException"))
        (before ++ ([.unhandled { line := some 5 } ⟨"IOException"⟩] ++ after)) ∧
      Flow.Finds standardRules
        (.unit [raisingAt 1 "IOException", raisingAt 5 "IOException"] {})
        [.unhandled { line := some 1 } ⟨"IOException"⟩,
          .unhandled { line := some 5 } ⟨"IOException"⟩] := by
  have hdef : ∀ line, (raisingAt line "IOException").Sound := fun line =>
    (Node.sound_funcDef _ _ _ _).mpr fun _ =>
      List.forall_mem_singleton.mpr (sound_raiseAt line "IOException")
  have hplace : (Layer.fillAll protectedPlace emptyBlock).Sound := by
    simp [Layer.fillAll, Layer.fill, protectedPlace, emptyBlock, Node.sound_unit,
      Node.sound_tryCatch, Node.sound_plain, Node.sound_absent, sound_ignoring, sound_raiseAt, hdef]
  have hfinds := fun line => Flow.finds_of_sound standardRules (hdef line)
  obtain ⟨hplaced, hunit⟩ := definitions_stand_alone standardRules
  obtain ⟨before, after, hsplit, halone⟩ :=
    hplaced protectedPlace _ (by decide) (Flow.finds_of_sound standardRules hplace)
  refine ⟨before, after, hsplit, halone (raisingAt 5 "IOException") _ rfl (hfinds 5), ?_⟩
  exact hunit ([1, 5].map fun line => (raisingAt line "IOException", _)) {}
    (List.forall_mem_map.mpr fun line _ => ⟨rfl, hfinds line⟩)

end CheckedExceptions
