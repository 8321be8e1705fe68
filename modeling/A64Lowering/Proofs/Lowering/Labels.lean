import Mathlib
import A64Lowering.Proofs.Ir.Meaning
import A64Lowering.Proofs.Lowering.Emits
import A64Lowering.Proofs.Machine.Run

/-! # Labels of a lowered body

* `label_mem_of_lowers`, `label_mem_lines`: the lines of a body have its labels and no others.
* `after_of_lowers`: a label is found where the body has it. -/
namespace A64Lowering
set_option autoImplicit false

open A64 Ir

variable {site : Site} {body : List Instruction} {lines : List Line} {name : String}

theorem label_notMem_code (code : List Inst) (name : String) :
    Line.label name ∉ code.map Line.inst := by
  simp

theorem label_mem_of_lowers (h : site.Lowers body lines) (hmem : Line.label name ∈ lines) :
    Instruction.label name ∈ body := by
  induction h with
  | nil => exact absurd hmem List.not_mem_nil
  | @cons inst body lines rest hinst hbody ih =>
    rcases List.mem_append.mp hmem with hfirst | hrest
    · rcases List.mem_append.mp hfirst with hannotation | hlines
      · exact absurd hannotation (site.label_notMem_annotationLines inst name)
      · cases hinst with
        | label l =>
          cases List.mem_singleton.mp hlines
          exact List.mem_cons_self
        | code h => exact absurd hlines (label_notMem_code _ name)
    · exact List.mem_cons_of_mem _ (ih hrest)

/-- A label that the body has is found in its lines, before the same rest of the body. -/
theorem after_of_lowers (h : site.Lowers body lines) (tail : List Line) {rest : List Instruction}
    (hafter : Instruction.after name body = some rest) :
    ∃ restLines, site.Lowers rest restLines ∧
      Line.after name (lines ++ tail) = some (restLines ++ tail) := by
  induction h with
  | nil => exact absurd hafter nofun
  | @cons inst body lines restLines hinst hbody ih =>
    rw [List.append_assoc, List.append_assoc,
      after_append_of_not_mem _ (site.label_notMem_annotationLines inst name)]
    cases hinst with
    | label l =>
      rw [Instruction.after] at hafter
      rw [List.singleton_append, Line.after]
      split at hafter
      · next heq =>
        cases hafter
        rw [if_pos heq]
        exact ⟨restLines, hbody, rfl⟩
      · next hne =>
        rw [if_neg hne]
        exact ih hafter
    | code hemits =>
      rw [after_append_of_not_mem _ (label_notMem_code _ name)]
      have hskip : Instruction.after name (inst :: body) = Instruction.after name body := by
        cases hemits <;> rfl
      rw [hskip] at hafter
      exact ih hafter

theorem label_mem_lines (h : site.Lowers body lines) (hmem : Instruction.label name ∈ body) :
    Line.label name ∈ lines := by
  induction h with
  | nil => exact absurd hmem List.not_mem_nil
  | @cons inst body lines rest hprints hbody ih =>
    rcases List.mem_cons.mp hmem with rfl | hrest
    · cases hprints with
      | label => simp
      | code hemits => cases hemits
    · exact List.mem_append_right _ (ih hrest)

theorem after_cons_of_ne {inst : Instruction} {body : List Instruction}
    (h : inst ≠ .label name) :
    Instruction.after name (inst :: body) = Instruction.after name body := by
  cases inst with
  | label l => exact if_neg fun heq : l = name => h (by rw [heq])
  | _ => rfl

theorem exists_after {body : List Instruction} (h : .label name ∈ body) :
    ∃ rest, Instruction.after name body = some rest := by
  induction body with
  | nil => exact absurd h List.not_mem_nil
  | cons inst body ih =>
    by_cases hhere : inst = .label name
    · subst hhere
      exact ⟨body, if_pos rfl⟩
    · rw [after_cons_of_ne hhere]
      exact ih ((List.mem_cons.mp h).resolve_left (Ne.symm hhere))

theorem mem_of_after {body rest : List Instruction} (h : Instruction.after name body = some rest) :
    .label name ∈ body ∧ rest ⊆ body := by
  induction body with
  | nil => exact absurd h nofun
  | cons inst body ih =>
    by_cases hhere : inst = .label name
    · subst hhere
      rw [Instruction.after, if_pos rfl] at h
      cases h
      exact ⟨List.mem_cons_self, List.subset_cons_self _ _⟩
    · rw [after_cons_of_ne hhere] at h
      obtain ⟨hmem, hsub⟩ := ih h
      refine ⟨List.mem_cons_of_mem _ hmem, ?_⟩
      intro i hi
      exact List.mem_cons_of_mem _ (hsub hi)

theorem returnLabel_ne (site : Site) : site.returnLabel ≠ site.function := by
  intro heq
  have hlength := congrArg String.length heq
  have htwo : ".L".length = 2 := rfl
  rw [Site.returnLabel, String.length_append, String.length_append, htwo] at hlength
  omega

end A64Lowering
