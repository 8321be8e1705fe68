import Mathlib
import A64Lowering.Lowering.Instruction

/-! # Registers borrowed from the pool

* `Pool.Takes`: a pool after registers were taken from it, one after another. They were free, and
  giving them back leaves the pool as it was.
* `Scratch.Borrows`: a step that does nothing to the pool but take registers. `borrows_lines`: up to
  where registers are given back, lowering an instruction is such a step.
* `Site.Uses`: what is done with a workspace. `takes_of_uses`: the registers it holds are always
  those that were taken since it was opened.
* `lower_restores_pool`: after lowering an instruction, with or without a fault, the pool is as the
  workspace found it. -/
namespace A64Lowering
set_option autoImplicit false

open A64 Ir

/-! ## Taking registers -/

namespace A64.Pool
variable {p q after : Pool} {r : PoolReg} {rs rs' : List PoolReg}

theorem eq_of_acquire (h : p.acquire = .ok (r, after)) :
    after = { p with held := p.held.set r true r.isLt } := by
  rw [acquire] at h
  split at h
  · obtain ⟨rfl, rfl⟩ := Prod.mk.inj (Except.ok.inj h)
    rfl
  · cases h

/-- A register that was taken is not free, and the others are as free as before. -/
theorem isFree_of_acquire (h : p.acquire = .ok (r, after)) (q : PoolReg) :
    after.isFree q = true ↔ q ≠ r ∧ p.isFree q = true := by
  rw [eq_of_acquire h]
  by_cases hq : q = r
  · subst hq
    simp [isFree]
  · have hval : r.val ≠ q.val := fun heq => hq (Fin.ext heq.symm)
    simp [isFree, hq, hval]

/-- The pool after these registers were taken from `p`, the first one in the list last. -/
inductive Takes (p : Pool) : List PoolReg → Pool → Prop where
  | nil : Takes p [] p
  | cons {rs : List PoolReg} {r : PoolReg} {q after : Pool} (h : Takes p rs q)
      (hr : q.acquire = .ok (r, after)) : Takes p (r :: rs) after

theorem Takes.trans {last : Pool} (h : p.Takes rs q) (h' : q.Takes rs' last) :
    p.Takes (rs' ++ rs) last := by
  induction h' with
  | nil => exact h
  | cons _ hr ih => exact .cons ih hr

theorem Takes.release (h : p.Takes rs q) : rs.foldl Pool.release q = p := by
  induction h with
  | nil => rfl
  | cons _ hr ih => rw [List.foldl_cons, (release_of_acquire hr).2, ih]

theorem Takes.reserved_eq (h : p.Takes rs q) : q.reserved = p.reserved := by
  induction h with
  | nil => rfl
  | cons _ hr ih => rw [eq_of_acquire hr, ih]

/-- The registers that are held are those held before and those taken since. -/
theorem Takes.held_iff (h : p.Takes rs q) (r : PoolReg) :
    q.held.get r = true ↔ p.held.get r = true ∨ r ∈ rs := by
  induction h with
  | nil => simp
  | @cons rs last q after _ hr ih =>
    rw [eq_of_acquire hr, List.mem_cons, ← or_assoc, or_right_comm, ← ih]
    by_cases hlast : r = last
    · subst hlast
      simp [Vector.get_eq_getElem]
    · have hval : last.val ≠ r.val := fun heq => hlast (Fin.ext heq.symm)
      simp [Vector.get_eq_getElem, hlast, hval]

theorem Takes.isFree_iff (h : p.Takes rs q) (r : PoolReg) :
    q.isFree r = true ↔ r ∉ rs ∧ p.isFree r = true := by
  induction h with
  | nil => simp
  | cons _ hr ih => rw [isFree_of_acquire hr, ih, List.mem_cons, not_or, and_assoc]

theorem Takes.isFree (h : p.Takes rs q) (hr : r ∈ rs) : p.isFree r = true := by
  induction h with
  | nil => exact absurd hr List.not_mem_nil
  | cons h hacquire ih =>
    rcases List.mem_cons.mp hr with rfl | hr
    · exact ((h.isFree_iff r).mp (release_of_acquire hacquire).1).2
    · exact ih hr

theorem Takes.nodup (h : p.Takes rs q) : rs.Nodup := by
  induction h with
  | nil => exact List.nodup_nil
  | cons h hr ih =>
    exact List.nodup_cons.mpr ⟨((h.isFree_iff _).mp (release_of_acquire hr).1).1, ih⟩

end A64.Pool

/-! ## Steps that take registers -/

namespace Scratch
variable {α β : Type}

/-- Whether it succeeds or not, the step takes registers, puts them to those taken before and does
nothing else to the pool. -/
def Borrows (x : Scratch α) : Prop :=
  ∀ w, ∃ rs, (x.run w).2.taken = rs ++ w.taken ∧ w.pool.Takes rs (x.run w).2.pool

theorem borrows_pure (a : α) : Borrows (pure a) := fun _ => ⟨[], rfl, .nil⟩

theorem borrows_ofExcept (e : Except LoweringFault α) : Borrows (ofExcept e) :=
  fun _ => ⟨[], rfl, .nil⟩

theorem run_acquire {w : Workspace} {r : PoolReg} {after : Pool}
    (h : w.pool.acquire = .ok (r, after)) : acquire.run w = (.ok r.reg, ⟨after, r :: w.taken⟩) := by
  rw [acquire, ExceptT.run_mk, h]

theorem borrows_acquire : Borrows acquire := by
  intro w
  rcases h : w.pool.acquire with fault | ⟨r, after⟩
  · refine ⟨[], ?_⟩
    rw [acquire, ExceptT.run_mk, h]
    exact ⟨rfl, .nil⟩
  · refine ⟨[r], ?_⟩
    rw [run_acquire h]
    exact ⟨rfl, .cons .nil h⟩

theorem Borrows.bind {x : Scratch α} {f : α → Scratch β} (hx : Borrows x)
    (hf : ∀ a, Borrows (f a)) : Borrows (x >>= f) := by
  intro w
  rw [run_bind]
  obtain ⟨rs, htaken, htakes⟩ := hx w
  rcases hrun : x.run w with ⟨fault | a, mid⟩
  · rw [hrun] at htaken htakes
    exact ⟨rs, htaken, htakes⟩
  · rw [hrun] at htaken htakes
    obtain ⟨rs', htaken', htakes'⟩ := hf a mid
    refine ⟨rs' ++ rs, ?_, htakes.trans htakes'⟩
    rw [htaken', List.append_assoc]
    exact congrArg (rs' ++ ·) htaken

/-- Giving all registers back after the step leaves what it would have left before. -/
theorem Borrows.release_run {x : Scratch α} (hx : Borrows x) (w : Workspace) :
    (x.run w).2.release = w.release := by
  obtain ⟨rs, htaken, htakes⟩ := hx w
  rw [Workspace.release, Workspace.release, htaken, List.foldl_append, htakes.release]

end Scratch

namespace Site
variable {s : Site}

open Scratch (Borrows borrows_pure borrows_ofExcept borrows_acquire)

theorem borrows_fetch (r : VReg) : Borrows (s.fetch r) :=
  borrows_acquire.bind fun _ => (borrows_ofExcept _).bind fun _ => borrows_pure _

theorem borrows_operand (operand : Operand) : Borrows (s.operand operand) := by
  cases operand with
  | reg r => exact borrows_fetch r
  | imm n => exact borrows_acquire.bind fun _ => borrows_pure _

theorem borrows_applyBinary (op : BinaryOp) (lhs : Reg) (rhs : Operand) :
    Borrows (s.applyBinary op lhs rhs) := by
  rw [applyBinary]
  split
  · exact borrows_pure _
  · exact (borrows_operand rhs).bind fun _ => borrows_pure _

theorem borrows_operate (inst : Instruction) : Borrows (s.operate inst) := by
  cases inst with
  | mov target source =>
    exact (borrows_operand source).bind fun _ => (borrows_ofExcept _).bind fun _ =>
      borrows_pure _
  | binary op target lhs rhs =>
    exact (borrows_fetch lhs).bind fun _ => (borrows_applyBinary op _ rhs).bind fun _ =>
      (borrows_ofExcept _).bind fun _ => borrows_pure _
  | unary op target source =>
    exact (borrows_fetch source).bind fun _ => (borrows_ofExcept _).bind fun _ =>
      borrows_pure _
  | compare cond target lhs rhs =>
    exact (borrows_fetch lhs).bind fun _ => (borrows_operand rhs).bind fun _ =>
      (borrows_ofExcept _).bind fun _ => borrows_pure _
  | loadGlobal target name =>
    exact (borrows_ofExcept _).bind fun _ => borrows_acquire.bind fun _ =>
      (borrows_ofExcept _).bind fun _ => borrows_pure _
  | storeGlobal source name =>
    exact (borrows_ofExcept _).bind fun _ => (borrows_fetch source).bind fun _ =>
      borrows_acquire.bind fun _ => borrows_pure _
  | loadField target base field index =>
    exact (borrows_fetch base).bind fun _ => (borrows_ofExcept _).bind fun _ => borrows_pure _
  | storeField source base field index =>
    exact (borrows_fetch source).bind fun _ => (borrows_fetch base).bind fun _ =>
      borrows_pure _
  | new _ _ _ | delete _ | print _ =>
    exact (borrows_ofExcept _).bind fun _ => borrows_pure _
  | label _ | branch _ => exact borrows_pure _
  | condBranch value onTrue name => exact (borrows_fetch value).bind fun _ => borrows_pure _
  | call target function args => exact borrows_ofExcept _
  | ret value =>
    cases value with
    | none => exact borrows_pure _
    | some value => exact (borrows_ofExcept _).bind fun _ => borrows_pure _

theorem lines_eq {inst : Instruction} (hinst : ∀ name, inst ≠ .label name) :
    s.lines inst = s.operate inst >>= fun code => pure (code.map .inst) := by
  cases inst with
  | label name => exact absurd rfl (hinst name)
  | _ => rfl

theorem borrows_lines (inst : Instruction) : Borrows (s.lines inst) := by
  by_cases hinst : ∃ name, inst = .label name
  · obtain ⟨name, rfl⟩ := hinst
    exact borrows_pure _
  · rw [lines_eq fun name h => hinst ⟨name, h⟩]
    exact (borrows_operate inst).bind fun _ => borrows_pure _

/-! ## Using a workspace -/

/-- Something is done that may take registers and gives none back. -/
inductive Draws (s : Site) : Workspace → Workspace → Prop where
  | acquire (w : Workspace) : Draws s w (Scratch.acquire.run w).2
  | fetch (r : VReg) (w : Workspace) : Draws s w ((s.fetch r).run w).2
  | lines (inst : Instruction) (w : Workspace) : Draws s w ((s.lines inst).run w).2

/-- One use of a workspace: registers are taken, all of them are given back, an instruction is
lowered, or an answer is found that takes none, such as the code to load or store a register. -/
inductive Uses (s : Site) : Workspace → Workspace → Prop where
  | draw {w after : Workspace} (h : s.Draws w after) : Uses s w after
  | answer {α : Type} (e : Except LoweringFault α) (w : Workspace) :
      Uses s w ((Scratch.ofExcept e).run w).2
  | release (w : Workspace) : Uses s w w.release
  | lower (inst : Instruction) (w : Workspace) : Uses s w ((s.lower inst).run w).2

theorem exists_takes_of_draws {w after : Workspace} (h : s.Draws w after) :
    ∃ rs, after.taken = rs ++ w.taken ∧ w.pool.Takes rs after.pool := by
  cases h with
  | acquire => exact borrows_acquire w
  | fetch r => exact borrows_fetch r w
  | lines inst => exact borrows_lines inst w

/-- Lowering gives back what the workspace holds once the instruction has taken its registers. -/
theorem run_lower_snd (inst : Instruction) (w : Workspace) :
    ((s.lower inst).run w).2 = ((s.lines inst).run w).2.release := rfl

variable {p : Pool} {w after : Workspace}

theorem release_of_takes (h : p.Takes w.taken w.pool) : w.release = ⟨p, []⟩ := by
  rw [Workspace.release, h.release]

theorem takes_of_draws (h : p.Takes w.taken w.pool) (hdraws : s.Draws w after) :
    p.Takes after.taken after.pool := by
  obtain ⟨rs, htaken, htakes⟩ := exists_takes_of_draws hdraws
  rw [htaken]
  exact h.trans htakes

theorem lower_of_takes (h : p.Takes w.taken w.pool) (inst : Instruction) :
    ((s.lower inst).run w).2 = ⟨p, []⟩ :=
  release_of_takes (takes_of_draws h (.lines inst w))

theorem takes_of_step (h : p.Takes w.taken w.pool) (huse : s.Uses w after) :
    p.Takes after.taken after.pool := by
  cases huse with
  | draw hdraws => exact takes_of_draws h hdraws
  | answer e => exact h
  | release =>
    rw [release_of_takes h]
    exact .nil
  | lower inst =>
    rw [lower_of_takes h inst]
    exact .nil

/-- However a workspace has been used since it was opened on a pool, the pool has lost to it the
registers that it holds, and nothing else. -/
theorem takes_of_uses (h : Relation.ReflTransGen s.Uses ⟨p, []⟩ w) :
    p.Takes w.taken w.pool := by
  induction h with
  | refl => exact .nil
  | tail _ huse ih => exact takes_of_step ih huse

theorem acquire_of_fetch {r : VReg} {reg : Reg} {code : List Inst}
    (h : (s.fetch r).run w = (.ok (reg, code), after)) :
    Scratch.acquire.run w = (.ok reg, after) := by
  rw [fetch, Scratch.run_bind] at h
  rcases hrun : Scratch.acquire.run w with ⟨fault | first, mid⟩
  · rw [hrun] at h
    cases h
  · rw [hrun] at h
    dsimp only at h
    rw [Scratch.run_bind, Scratch.run_ofExcept] at h
    rcases hload : s.load first r with fault | code'
    · rw [hload] at h
      cases h
    · rw [hload] at h
      cases h
      rfl

theorem handed_of_acquire {reg : Reg} (h : Scratch.acquire.run w = (.ok reg, after)) :
    ∃ r : PoolReg, reg = r.reg ∧ after.taken = r :: w.taken ∧ w.pool.isFree r = true := by
  rcases hacquire : w.pool.acquire with fault | ⟨r, pool⟩
  · rw [Scratch.acquire, ExceptT.run_mk, hacquire] at h
    cases h
  · rw [Scratch.run_acquire hacquire] at h
    cases h
    exact ⟨r, rfl, rfl, (Pool.release_of_acquire hacquire).1⟩

/-- How a workspace deals with the pool `p` on which it was opened. -/
structure Settles (s : Site) (p : Pool) (w : Workspace) : Prop where
  /-- Lowering, with or without a fault, gives back what the workspace holds by then, and leaves
  nothing taken and the pool as it was. -/
  lower : ∀ inst, ((s.lower inst).run w).2 = ((s.lines inst).run w).2.release ∧
    ((s.lower inst).run w).2 = ⟨p, []⟩
  /-- Until then, the registers held are those that others held and those of the workspace. -/
  held : ∀ r, w.pool.held.get r = true ↔ p.held.get r = true ∨ r ∈ w.taken
  reserved : w.pool.reserved = p.reserved
  /-- What is given back was neither held by others nor reserved. -/
  own : ∀ r ∈ w.taken, p.isFree r = true
  /-- A register that is handed out was neither held by anyone nor reserved. -/
  handed : ∀ reg after, Scratch.acquire.run w = (.ok reg, after) ∨
      (∃ r code, (s.fetch r).run w = (.ok (reg, code), after)) →
    ∃ r : PoolReg, reg = r.reg ∧ after.taken = r :: w.taken ∧ w.pool.isFree r = true
  /-- The same holds of all registers that are taken for an instruction, and of those that a step
  keeps although it fails; what is given back after them is the workspace's own. -/
  drawn : ∀ after, s.Draws w after → ∃ rs, after.taken = rs ++ w.taken ∧ rs.Nodup ∧
    (∀ r ∈ rs, w.pool.isFree r = true) ∧ ∀ r ∈ after.taken, p.isFree r = true

/-- A workspace may have been used in any way since it was opened on a pool, and registers of the
pool may be reserved or held by others. Lowering an instruction leaves the workspace empty and the
pool as it was, and on the way only free registers are taken and only those are given back. -/
theorem lower_restores_pool (h : Relation.ReflTransGen s.Uses ⟨p, []⟩ w) : s.Settles p w := by
  have htakes := takes_of_uses h
  refine ⟨fun inst => ⟨run_lower_snd inst w, lower_of_takes htakes inst⟩, htakes.held_iff,
    htakes.reserved_eq, fun r => htakes.isFree, ?_, ?_⟩
  · rintro reg after (hacquire | ⟨r, code, hfetch⟩)
    · exact handed_of_acquire hacquire
    · exact handed_of_acquire (acquire_of_fetch hfetch)
  · intro after hdraws
    obtain ⟨rs, htaken, hrs⟩ := exists_takes_of_draws hdraws
    exact ⟨rs, htaken, hrs.nodup, fun r => hrs.isFree,
      fun r => (takes_of_draws htakes hdraws).isFree⟩

/-- One temporary is reserved and another one is held by someone else. -/
def sharedPool : Pool :=
  ⟨Pool.temporaries.held.set 10 true, Pool.temporaries.reserved.set 9 true⟩

/-- A function with one slot. -/
def oneSlot : Site := ⟨"f", ⟨[], [⟨0⟩], ⟨8, 16⟩, Nat.zero_le 8⟩, .default, []⟩

/-- The workspace after taking a register, and another one for a value that has no home. -/
def halfUsed : Workspace :=
  ((oneSlot.fetch ⟨7⟩).run (Scratch.acquire.run ⟨sharedPool, []⟩).2).2

/-- The workspace holds two registers and takes two more before the instruction turns out to have a
fault; then it holds none. -/
theorem restores_pool_halfUsed :
    Relation.ReflTransGen oneSlot.Uses ⟨sharedPool, []⟩ halfUsed ∧ halfUsed.taken = [12, 11] ∧
      ((oneSlot.lines (.storeField ⟨0⟩ ⟨7⟩ "next" 1)).run halfUsed).2.taken = [14, 13, 12, 11] ∧
      (oneSlot.lower (.storeField ⟨0⟩ ⟨7⟩ "next" 1)).run halfUsed
        = (.error (.undefinedRegister ⟨7⟩ "f"), ⟨sharedPool, []⟩) ∧
      oneSlot.Settles sharedPool halfUsed := by
  have huses : Relation.ReflTransGen oneSlot.Uses ⟨sharedPool, []⟩ halfUsed :=
    .tail (.single (.draw (.acquire _))) (.draw (.fetch _ _))
  have hsettles := lower_restores_pool huses
  exact ⟨huses, by decide, by decide, Prod.ext (by rfl) (hsettles.lower _).2, hsettles⟩

end Site
end A64Lowering
