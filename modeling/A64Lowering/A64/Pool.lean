import A64Lowering.A64.Inst
import A64Lowering.Diagnostic
import A64Lowering.Text.Decimal

/-! # The pool of scratch registers

* `Pool`: which of the 32 registers are held and which are reserved.
* `acquire`, `release`, `reserve`: taking the lowest free register, giving one back, and taking one
  out of circulation.
* `isFree_temporaries`: the usual pool has exactly `x9` to `x15` free.
* `release_of_acquire`: giving back the register just taken leaves the pool as it was. -/
namespace A64Lowering.A64
set_option autoImplicit false

/-- A demand that the pool does not meet. -/
inductive PoolFault where
  | exhausted
  | invalidRegister (id : UInt8)
  deriving DecidableEq, Repr

namespace PoolFault

def message : PoolFault → String
  | exhausted => "No available registers in the pool"
  | invalidRegister id => "Invalid register id: " ++ Decimal.ofNat id.toNat

/-- The pool is the compiler's own. -/
def diagnostic (fault : PoolFault) : Diagnostic := .internal fault.message

end PoolFault

/-- A register that the pool can hand out. -/
abbrev PoolReg := Fin 32

namespace PoolReg

/-- The register with this identifier. -/
def ofId (id : UInt8) : Except PoolFault PoolReg :=
  if h : id.toNat < 32 then .ok ⟨id.toNat, h⟩ else .error (.invalidRegister id)

def reg (r : PoolReg) : Reg := .x (.ofNat r.val)

end PoolReg

/-- Which registers are held by someone, and which are reserved. -/
structure Pool where
  held : Vector Bool 32
  reserved : Vector Bool 32
  deriving DecidableEq, Repr

namespace Pool

/-- The pool in which every register is free. -/
def full : Pool := ⟨.replicate 32 false, .replicate 32 false⟩

/-- The pool of the caller-saved temporaries `x9` to `x15`: arguments, the two call scratch
registers, the platform register, callee-saved registers, frame pointer, link register and the
identifier of `sp` are reserved. -/
def temporaries : Pool :=
  { full with reserved := .ofFn fun r => r.val ≤ 8 || 16 ≤ r.val }

/-- Whether `acquire` could hand out `r`. -/
def isFree (p : Pool) (r : PoolReg) : Bool := !p.held[r] && !p.reserved[r]

/-- Takes the lowest free register. -/
def acquire (p : Pool) : Except PoolFault (PoolReg × Pool) :=
  match (List.finRange 32).find? p.isFree with
  | some r => .ok (r, { p with held := p.held.set r true })
  | none => .error .exhausted

/-- Gives a register back. -/
def release (p : Pool) (r : PoolReg) : Pool := { p with held := p.held.set r false }

/-- Takes a register out of circulation, held or not. -/
def reserve (p : Pool) (r : PoolReg) : Pool := { p with reserved := p.reserved.set r true }

/-- How many registers `acquire` could still hand out. -/
def available (p : Pool) : Nat := (List.finRange 32).countP p.isFree

/-- How many registers are held. -/
def inUse (p : Pool) : Nat := (List.finRange 32).countP fun r => p.held[r]

/-- The temporaries are the free registers at the start. -/
theorem isFree_temporaries (r : PoolReg) : temporaries.isFree r = true ↔ 9 ≤ r.val ∧ r.val ≤ 15 := by
  revert r; decide

/-- A register that was taken was free, and giving it back undoes the taking. -/
theorem release_of_acquire {p after : Pool} {r : PoolReg} (h : p.acquire = .ok (r, after)) :
    p.isFree r = true ∧ after.release r = p := by
  rw [acquire] at h
  split at h
  · next lowest found =>
    obtain ⟨same, rfl⟩ := Prod.mk.inj (Except.ok.inj h)
    subst same
    have free := List.find?_some found
    refine ⟨free, ?_⟩
    have unheld : p.held[lowest] = false := by simpa using (Bool.and_eq_true_iff.mp free).1
    obtain ⟨held, reserved⟩ := p
    rw [release, mk.injEq]
    refine ⟨Vector.ext fun i hi => ?_, rfl⟩
    by_cases same : lowest.val = i
    · subst same; simpa using unheld.symm
    · simp [same]
  · exact absurd h nofun

end Pool
end A64Lowering.A64
