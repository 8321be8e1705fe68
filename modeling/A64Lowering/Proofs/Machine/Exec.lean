import A64Lowering.A64.Inst
import A64Lowering.A64.Convention
import A64Lowering.Proofs.Machine.Memory

/-! # What machine instructions do

* `State`: registers, flags, memory, and the log of calls and writes so far.
* `Env`: the addresses of symbols, and what routines outside the code do to a state.
* `exec`: one instruction, apart from where it goes on. A literal load brings its literal.
* `execs`: instructions one after another.
* `Changes`: a state that differs from another one in some registers and the flags only. -/
namespace A64Lowering.A64
set_option autoImplicit false

/-! ## Flags -/

/-- Negative, zero, carry and overflow. -/
structure Flags where
  n : Bool
  z : Bool
  c : Bool
  v : Bool

/-- The flags of the difference of `a` and `b`. -/
def Flags.ofSub (a b : Word) : Flags := ⟨(a - b).msb, a == b, b.ule a, BitVec.ssubOverflow a b⟩

def Cond.holds (f : Flags) : Cond → Bool
  | .eq => f.z
  | .ne => !f.z
  | .lt => f.n != f.v
  | .le => f.z || f.n != f.v
  | .gt => !f.z && f.n == f.v
  | .ge => f.n == f.v

theorem negative_ne_overflow (a b : Word) : ((a - b).msb != BitVec.ssubOverflow a b) = a.slt b := by
  rw [BitVec.slt_eq_decide, BitVec.msb_eq_toInt, BitVec.ssubOverflow, BitVec.toInt_sub,
    Int.bmod_def]
  have ha := a.toInt_lt
  have hb := b.toInt_lt
  have ha' := a.le_toInt
  have hb' := b.le_toInt
  rw [Bool.eq_iff_iff, bne_iff_ne, ne_eq, Bool.eq_iff_iff]
  simp only [Bool.or_eq_true, decide_eq_true_eq]
  split <;> omega

/-! ## States -/

/-- What code can be seen to do: calling a routine, and writing a word. -/
inductive Event where
  | call (routine : String) (args : List Word) (result : Word)
  | write (address value : Word)
  deriving DecidableEq

structure State where
  reg : Reg → Word
  flags : Flags
  mem : Mem
  log : List Event

namespace State

/-- The value that an instruction reads from a register. -/
def get (s : State) : Reg → Word
  | .xzr => 0
  | r => s.reg r

def set (s : State) (r : Reg) (v : Word) : State := { s with reg := Function.update s.reg r v }

/-- The state after writing `v` to the eight bytes from `a` on. -/
def store (s : State) (a v : Word) : State :=
  { s with mem := s.mem.write a v, log := s.log ++ [.write a v] }

@[simp] theorem get_x (s : State) (n : UInt8) : s.get (.x n) = s.reg (.x n) := rfl
@[simp] theorem get_sp (s : State) : s.get .sp = s.reg .sp := rfl

@[simp] theorem reg_set_self (s : State) (r : Reg) (v : Word) : (s.set r v).reg r = v := by
  simp [set]

theorem reg_set_of_ne (s : State) {r q : Reg} (v : Word) (h : q ≠ r) :
    (s.set r v).reg q = s.reg q := by
  simp [set, h]

@[simp] theorem set_set (s : State) (r : Reg) (v v' : Word) : (s.set r v).set r v' = s.set r v' := by
  simp [set]

@[simp] theorem set_reg_self (s : State) (r : Reg) : s.set r (s.reg r) = s := by
  simp [set]

@[simp] theorem mem_set (s : State) (r : Reg) (v : Word) : (s.set r v).mem = s.mem := rfl
@[simp] theorem log_set (s : State) (r : Reg) (v : Word) : (s.set r v).log = s.log := rfl
@[simp] theorem reg_store (s : State) (a v : Word) : (s.store a v).reg = s.reg := rfl
@[simp] theorem mem_store (s : State) (a v : Word) : (s.store a v).mem = s.mem.write a v := rfl

@[simp] theorem log_store (s : State) (a v : Word) :
    (s.store a v).log = s.log ++ [.write a v] := rfl

end State

/-! ## Instructions -/

/-- What lies around the code: where symbols are, and the routines that are called. -/
structure Env where
  symbol : String → Word
  /-- The state in which a routine returns. -/
  routine : String → State → State

/-- The argument registers, in order. -/
def argWords (s : State) : List Word := List.ofFn fun i : Fin 8 => s.reg (argReg i)

/-- The state in which a call returns; the log tells the call. -/
def call (env : Env) (routine : String) (s : State) : State :=
  let t := env.routine routine s
  { t with log := s.log ++ [.call routine (argWords s) (t.reg resultReg)] }

/-- The address at an instruction's offset. -/
def offsetAddr (base : Word) (offset : Int32) : Word := addr base offset.toInt

/-- What an instruction does to a state. -/
def exec (env : Env) (s : State) : Inst → State
  | .add rd rn rm => s.set rd (s.get rn + s.get rm)
  | .sub rd rn rm => s.set rd (s.get rn - s.get rm)
  | .mul rd rn rm => s.set rd (s.get rn * s.get rm)
  | .sdiv rd rn rm => s.set rd ((s.get rn).sdiv (s.get rm))
  | .neg rd rn => s.set rd (-s.get rn)
  | .addImm rd rn imm => s.set rd (addr (s.get rn) imm.toNat)
  | .subImm rd rn imm => s.set rd (addr (s.get rn) (-imm.toNat))
  | .and rd rn rm => s.set rd (s.get rn &&& s.get rm)
  | .orr rd rn rm => s.set rd (s.get rn ||| s.get rm)
  | .eorImm rd rn imm => s.set rd (s.get rn ^^^ imm.toBitVec)
  | .cmp rn rm => { s with flags := .ofSub (s.get rn) (s.get rm) }
  | .cset rd cond => s.set rd (if cond.holds s.flags then 1 else 0)
  | .mov rd rn => s.set rd (s.get rn)
  | .movImm rd imm | .ldrLiteral rd imm => s.set rd imm.toBitVec
  | .ldr rt rn offset => s.set rt (s.mem.read (offsetAddr (s.get rn) offset))
  | .str rt rn offset => s.store (offsetAddr (s.get rn) offset) (s.get rt)
  | .stp rt₁ rt₂ rn => (s.store (s.get rn) (s.get rt₁)).store (addr (s.get rn) 8) (s.get rt₂)
  | .ldp rt₁ rt₂ rn =>
    (s.set rt₁ (s.mem.read (s.get rn))).set rt₂ (s.mem.read (addr (s.get rn) 8))
  | .adrp rd symbol => s.set rd (env.symbol symbol &&& ~~~0xFFF#64)
  | .addLo12 rd rn symbol => s.set rd (s.get rn + (env.symbol symbol &&& 0xFFF#64))
  | .bl routine => call env routine s
  | .b _ | .cbz _ _ | .cbnz _ _ | .ret => s

/-- What instructions do one after another. -/
def execs (env : Env) (code : List Inst) (s : State) : State := code.foldl (exec env) s

section Execs
variable (env : Env) (s : State)

@[simp] theorem execs_nil : execs env [] s = s := rfl

@[simp] theorem execs_cons (i : Inst) (code : List Inst) :
    execs env (i :: code) s = execs env code (exec env s i) := rfl

@[simp] theorem execs_append (front back : List Inst) :
    execs env (front ++ back) s = execs env back (execs env front s) :=
  List.foldl_append

end Execs

theorem page_add_low (w : Word) : (w &&& ~~~0xFFF#64) + (w &&& 0xFFF#64) = w := by
  rw [BitVec.add_eq_or_of_and_eq_zero]
  · ext i hi
    simp only [BitVec.getElem_or, BitVec.getElem_and, BitVec.getElem_not]
    cases w[i] <;> cases (0xFFF#64)[i] <;> rfl
  · ext i hi
    simp only [BitVec.getElem_and, BitVec.getElem_not, BitVec.getElem_zero]
    cases w[i] <;> cases (0xFFF#64)[i] <;> rfl

/-! ## States that differ in registers -/

/-- The numbered registers from `lo` to `hi`. -/
def Reg.among (lo hi : ℕ) : Set Reg := {r | ∃ n : UInt8, lo ≤ n.toNat ∧ n.toNat ≤ hi ∧ r = .x n}

namespace Reg

@[simp] theorem x_mem_among {n : UInt8} {lo hi : ℕ} :
    Reg.x n ∈ among lo hi ↔ lo ≤ n.toNat ∧ n.toNat ≤ hi := by
  constructor
  · rintro ⟨m, hlo, hhi, heq⟩
    cases heq
    exact ⟨hlo, hhi⟩
  · rintro ⟨hlo, hhi⟩
    exact ⟨n, hlo, hhi, rfl⟩

@[simp] theorem sp_notMem_among (lo hi : ℕ) : Reg.sp ∉ among lo hi := by
  rintro ⟨n, -, -, heq⟩
  cases heq

theorem among_subset {lo hi lo' hi' : ℕ} (hlo : lo' ≤ lo) (hhi : hi ≤ hi') :
    among lo hi ⊆ among lo' hi' := by
  rintro r ⟨n, h, h', rfl⟩
  exact ⟨n, by omega, by omega, rfl⟩

theorem ne_of_mem_among {lo hi lo' hi' : ℕ} {r q : Reg} (hr : r ∈ among lo hi)
    (hq : q ∈ among lo' hi') (h : hi < lo' ∨ hi' < lo) : r ≠ q := by
  obtain ⟨n, hlo, hhi, rfl⟩ := hr
  rintro rfl
  rw [x_mem_among] at hq
  omega

/-- The registers that a call may change. -/
def volatile : Set Reg := insert .sp (among 0 17)

theorem among_subset_volatile {lo hi : ℕ} (h : hi ≤ 17) : among lo hi ⊆ volatile := fun _ hr =>
  .inr (among_subset (Nat.zero_le lo) h hr)

theorem ne_of_mem_volatile {lo hi : ℕ} {r q : Reg} (hr : r ∈ volatile) (hq : q ∈ among lo hi)
    (h : 17 < lo) : r ≠ q := by
  rcases hr with rfl | hr
  · rintro rfl
    exact sp_notMem_among _ _ hq
  · exact ne_of_mem_among hr hq (.inl h)

theorem argReg_mem (i : Fin 8) : argReg i ∈ among 0 7 := by
  revert i
  simp only [argReg, x_mem_among]
  decide

theorem argReg_injective {i j : Fin 8} (h : argReg i = argReg j) : i = j := by
  revert i j
  decide

theorem slotScratch_mem : slotScratch ∈ among 16 16 := ⟨16, by decide, by decide, rfl⟩

theorem fp_mem : Reg.fp ∈ among 29 29 := ⟨29, by decide, by decide, rfl⟩

end Reg

/-- `t` is `s` but for the flags and the registers in `rs`. -/
structure Changes (rs : Set Reg) (s t : State) : Prop where
  reg : ∀ r, r ∉ rs → t.reg r = s.reg r
  mem : t.mem = s.mem
  log : t.log = s.log

namespace Changes

theorem refl (rs : Set Reg) (s : State) : Changes rs s s := ⟨fun _ _ => rfl, rfl, rfl⟩

theorem trans {rs : Set Reg} {s t u : State} (h : Changes rs s t) (h' : Changes rs t u) :
    Changes rs s u :=
  ⟨fun r hr => (h'.reg r hr).trans (h.reg r hr), h'.mem.trans h.mem, h'.log.trans h.log⟩

theorem mono {rs rs' : Set Reg} {s t : State} (h : Changes rs s t) (hsub : rs ⊆ rs') :
    Changes rs' s t :=
  ⟨fun r hr => h.reg r fun hmem => hr (hsub hmem), h.mem, h.log⟩

theorem set {rs : Set Reg} {s t : State} {r : Reg} (h : Changes rs s t) (v : Word) (hr : r ∈ rs) :
    Changes rs s (t.set r v) :=
  ⟨fun q hq => (t.reg_set_of_ne v (ne_of_mem_of_not_mem hr hq).symm).trans (h.reg q hq), h.mem,
    h.log⟩

theorem flags {rs : Set Reg} {s t : State} (h : Changes rs s t) (f : Flags) :
    Changes rs s { t with flags := f } :=
  ⟨h.reg, h.mem, h.log⟩

end Changes
end A64Lowering.A64
