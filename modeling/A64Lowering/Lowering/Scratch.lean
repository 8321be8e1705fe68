import A64Lowering.Lowering.Site

/-! # Scratch registers of one instruction

* `Workspace`: the pool, and the registers taken from it since they were last given back.
* `Scratch`: a step that may take registers. Those taken before a fault stay taken until they are
  given back.
* `Scratch.acquire`, `Workspace.release`, `Site.fetch`.
* `run_bind`, `run_ofExcept`: a step runs until its first fault. -/
namespace A64Lowering
set_option autoImplicit false

open A64

/-- The pool and the registers taken from it, last first. -/
structure Workspace where
  pool : Pool
  taken : List PoolReg
  deriving DecidableEq, Repr

/-- A step that may take registers. -/
abbrev Scratch := ExceptT LoweringFault (StateM Workspace)

namespace Workspace

/-- Gives every taken register back. -/
def release (w : Workspace) : Workspace := ⟨w.taken.foldl Pool.release w.pool, []⟩

end Workspace

namespace Scratch

/-- Takes a register. -/
def acquire : Scratch Reg :=
  ExceptT.mk fun w =>
    match w.pool.acquire with
    | .ok (r, pool) => (.ok r.reg, ⟨pool, r :: w.taken⟩)
    | .error fault => (.error (.pool fault), w)

/-- Goes on with an answer that takes no register. -/
def ofExcept {α : Type} (answer : Except LoweringFault α) : Scratch α :=
  ExceptT.mk fun w => (answer, w)

theorem run_bind {α β : Type} (s : Scratch α) (next : α → Scratch β) (w : Workspace) :
    (s >>= next).run w =
      match s.run w with
      | (.ok a, w) => (next a).run w
      | (.error fault, w) => (.error fault, w) := by
  have unfolded : (s >>= next).run w =
      match s.run w with
      | (result, w) => ExceptT.bindCont next result w := rfl
  rw [unfolded]
  rcases s.run w with ⟨a | fault, after⟩ <;> rfl

@[simp] theorem run_ofExcept {α : Type} (answer : Except LoweringFault α) (w : Workspace) :
    (ofExcept answer).run w = (answer, w) := rfl

end Scratch

/-- Brings the value of `r` into a register taken for it. -/
def Site.fetch (s : Site) (r : VReg) : Scratch (Reg × List Inst) := do
  let reg ← Scratch.acquire
  let code ← Scratch.ofExcept (s.load reg r)
  return (reg, code)

end A64Lowering
