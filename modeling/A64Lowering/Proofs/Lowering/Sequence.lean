import Mathlib
import A64Lowering.Lowering.Program
import A64Lowering.Proofs.Lowering.Emits

/-! # Lowering one thing after another

All scratch registers come back after an instruction, so each instruction and each fragment is
lowered as if it were alone with the pool.

* `Site.instLines`, `Site.bodyLines`, `fragmentLines`: the lines of one instruction, of a body and of
  one fragment.
* `run_lowerBody`, `lowerFragments_eq`: the lines of many are theirs, up to the first fault.
* `lowerFragment_eq`: a fragment is its layout, its body and the pool it found. -/
namespace A64Lowering
set_option autoImplicit false

open A64 Ir

/-! ## Answers one after another -/

section Answers
variable {α β ε : Type} {f : α → Except ε (List β)}

theorem mapM_flatten_cons (a : α) (as : List α) :
    ((a :: as).mapM f).map List.flatten
      = (do let first ← f a; let rest ← (as.mapM f).map List.flatten; return first ++ rest) := by
  rw [List.mapM_cons]
  rcases f a with fault | first
  · rfl
  · rcases as.mapM f with fault | rest <;> rfl

end Answers

/-! ## Instructions -/

namespace Site
variable (s : Site) (p : Pool)

/-- The lines of an instruction that is lowered with this pool. -/
def instLines (inst : Instruction) : Except LoweringFault (List Line) :=
  ((s.lower inst).run ⟨p, []⟩).1

theorem run_lower (inst : Instruction) :
    (s.lower inst).run ⟨p, []⟩ = (s.instLines p inst, ⟨p, []⟩) :=
  Prod.ext rfl ((borrows_lines inst).release_run ⟨p, []⟩)

/-- The lines of a body are those of its instructions, and the pool is as before. -/
theorem run_lowerBody (body : List Instruction) :
    (s.lowerBody body).run ⟨p, []⟩ = ((body.mapM (s.instLines p)).map List.flatten, ⟨p, []⟩) := by
  induction body with
  | nil => rfl
  | cons inst body ih =>
    rw [lowerBody, Scratch.run_bind, run_lower, mapM_flatten_cons]
    rcases s.instLines p inst with fault | first
    · rfl
    · dsimp only
      rw [Scratch.run_bind, ih]
      rcases (body.mapM (s.instLines p)).map List.flatten with fault | rest <;> rfl

def bodyLines (body : List Instruction) : Except LoweringFault (List Line) :=
  ((s.lowerBody body).run ⟨p, []⟩).1

theorem run_lowerBody_eq (body : List Instruction) :
    (s.lowerBody body).run ⟨p, []⟩ = (s.bodyLines p body, ⟨p, []⟩) := by
  rw [bodyLines, run_lowerBody]

theorem bodyLines_cons (inst : Instruction) (body : List Instruction) :
    s.bodyLines p (inst :: body)
      = (do let first ← s.instLines p inst; let rest ← s.bodyLines p body; return first ++ rest) := by
  simp only [bodyLines, run_lowerBody]
  exact mapM_flatten_cons inst body

end Site

/-! ## Fragments -/

section Fragments
variable (settings : Settings) (globals : List String) (p : Pool)

def fragmentLines (frag : Fragment) : Except LoweringFault (List Line) :=
  (lowerFragment settings globals frag p).1

theorem lowerFragment_of_error {frag : Fragment} {fault : ConventionFault}
    (h : Layout.ofFragment frag = .error fault) :
    lowerFragment settings globals frag p = (.error (.convention fault), p) := by
  rw [lowerFragment, h]

/-- With a layout, a fragment is as good as its body, and the pool is as before. -/
theorem lowerFragment_of_layout {frag : Fragment} {layout : Layout}
    (h : Layout.ofFragment frag = .ok layout) :
    lowerFragment settings globals frag p
      = (((frag.body.mapM ((layout.site settings globals frag).instLines p)).map List.flatten).map
          fun lines => heading frag.label layout.frame ++ lines
            ++ ending (layout.site settings globals frag) layout.frame, p) := by
  have hrun := (layout.site settings globals frag).run_lowerBody p frag.body
  rw [Layout.site] at hrun
  rw [lowerFragment, h]
  simp only [hrun]
  rfl

theorem lowerFragment_eq (frag : Fragment) :
    lowerFragment settings globals frag p = (fragmentLines settings globals p frag, p) := by
  refine Prod.ext rfl ?_
  cases h : Layout.ofFragment frag with
  | error fault => rw [lowerFragment_of_error settings globals p h]
  | ok layout => rw [lowerFragment_of_layout settings globals p h]

/-- The lines of fragments are those of each of them alone. -/
theorem lowerFragments_eq (fragments : List Fragment) :
    lowerFragments settings globals fragments p
      = (fragments.mapM (fragmentLines settings globals p)).map List.flatten := by
  induction fragments with
  | nil => rfl
  | cons frag fragments ih =>
    rw [lowerFragments, lowerFragment_eq, mapM_flatten_cons, ← ih]

end Fragments
end A64Lowering
