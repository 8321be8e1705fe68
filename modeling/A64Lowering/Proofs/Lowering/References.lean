import Mathlib
import A64Lowering.Proofs.Lowering.Forms
import A64Lowering.Proofs.Stack.Link

/-! # What lowered code refers to

* `Line.references`: the labels that a text jumps to and the symbols whose addresses it takes.
* `labels_of_lowers`, `refers_of_lowers`: the labels and references of a body.
* `labels_whole`, `refers_of_whole`: those of a function. -/
namespace A64Lowering
set_option autoImplicit false

open A64 Ir

/-! ## Labels and references of a text -/

namespace A64

/-- The references of a text, in order. -/
def Line.references (text : List Line) : List Reference :=
  text.filterMap fun
    | .inst i => i.reference?
    | _ => none

theorem Line.references_append (front back : List Line) :
    Line.references (front ++ back) = Line.references front ++ Line.references back :=
  List.filterMap_append

theorem Line.labels_append (front back : List Line) :
    Line.labels (front ++ back) = Line.labels front ++ Line.labels back :=
  List.filterMap_append

theorem Line.references_code (code : List Inst) :
    Line.references (code.map .inst) = code.filterMap Inst.reference? :=
  List.filterMap_map

theorem Line.labels_code (code : List Inst) : Line.labels (code.map .inst) = [] := by
  rw [Line.labels, List.filterMap_map]
  exact List.filterMap_eq_nil_iff.mpr fun _ _ => rfl

end A64

/-! ## Bodies and functions -/

def Ir.Instruction.placed? : Instruction → Option String
  | .label name => some name
  | _ => none

section Bodies
variable {s : Site} {body : List Instruction} {lines : List Line}

theorem labels_annotation (s : Site) (inst : Instruction) :
    Line.labels (s.annotation inst) = [] :=
  Site.filterMap_annotationLines (fun _ => rfl) s inst

theorem labels_of_prints {inst : Instruction} (h : s.Prints inst lines) :
    Line.labels lines = inst.placed?.toList := by
  cases h with
  | label name => rfl
  | code hemits =>
    rw [Line.labels_code]
    cases hemits <;> rfl

/-- The labels of a body are the ones that it places. -/
theorem labels_of_lowers (h : s.Lowers body lines) :
    Line.labels lines = body.filterMap (·.placed?) := by
  induction h with
  | nil => rfl
  | @cons inst body lines rest hinst _ ih =>
    rw [Line.labels_append, Line.labels_append, labels_annotation, labels_of_prints hinst, ih,
      List.nil_append]
    cases h : inst.placed? with
    | none =>
      rw [List.filterMap_cons_none h]
      rfl
    | some name =>
      rw [List.filterMap_cons_some h]
      rfl

theorem refers_of_form {inst : Instruction} {i : Inst} (h : s.Form inst i) {ref : Reference}
    (href : i.reference? = some ref) : s.Refers inst ref := by
  cases h with
  | compute _ _ hnone =>
    rw [hnone] at href
    cases href
  | address _ _ hsymbol h =>
    rw [hsymbol] at href
    cases href
    exact h
  | jump hlabel h =>
    rw [hlabel] at href
    cases href
    exact h
  | compare | store | call | reserve | giveBack => cases href

theorem refers_of_lowers (h : s.Lowers body lines) {ref : Reference}
    (href : ref ∈ Line.references lines) : ∃ inst ∈ body, s.Refers inst ref := by
  obtain ⟨line, hline, href⟩ := List.mem_filterMap.mp href
  cases line with
  | inst i =>
    obtain ⟨inst, hinst, hform⟩ := form_of_lowers h hline
    exact ⟨inst, hinst, refers_of_form hform href⟩
  | label _ | directive _ | comment _ => cases href

theorem labels_whole (h : s.Lowers body lines) :
    Line.labels (s.whole lines) = s.function :: (body.filterMap (·.placed?) ++ [s.returnLabel]) := by
  have hheading : Line.labels (heading s.function s.layout.frame) = [s.function] := by
    rw [heading, Line.labels_append, Line.labels_code]
    rfl
  have hending : Line.labels (ending s s.layout.frame) = [s.returnLabel] := by
    rw [ending, Line.labels_append, Line.labels_append, Line.labels_code]
    rfl
  rw [Site.whole, Line.labels_append, Line.labels_append, hheading, hending, labels_of_lowers h]
  rfl

theorem refers_of_whole (h : s.Lowers body lines) {ref : Reference}
    (href : ref ∈ Line.references (s.whole lines)) : ∃ inst ∈ body, s.Refers inst ref := by
  have hsteps : ∀ f : UInt32 → Inst, (∀ n, (f n).reference? = none) →
      (s.layout.frame.spSteps.map f).filterMap Inst.reference? = [] := by
    intro f hf
    rw [List.filterMap_map]
    exact List.filterMap_eq_nil_iff.mpr fun n _ => hf n
  have hheading : Line.references (heading s.function s.layout.frame) = [] := by
    rw [heading, Line.references_append, Line.references_code]
    exact hsteps _ fun _ => rfl
  have hending : Line.references (ending s s.layout.frame) = [] := by
    have hepilogue : s.layout.frame.epilogue.filterMap Inst.reference? = [] := by
      rw [Frame.epilogue, List.filterMap_append, hsteps _ fun _ => rfl]
      rfl
    rw [ending, Line.references_append, Line.references_append, Line.references_code, hepilogue]
    rfl
  rw [Site.whole, Line.references_append, Line.references_append, hheading, hending,
    List.nil_append, List.append_nil] at href
  exact refers_of_lowers h href

end Bodies
end A64Lowering
