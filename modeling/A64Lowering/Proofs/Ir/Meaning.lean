import A64Lowering.Ir.Program
import A64Lowering.Lowering.Instruction
import A64Lowering.Proofs.Machine.Exec

/-! # What register instructions do

* `Ir.State`: the values of registers, the memory of heap and global variables, and the log.
* `World`: where symbols and data are, and how routines outside the fragment answer.
* `Instruction.run`: one instruction. An access outside the data has no result.
* `step`, `Reaches`, `Finishes`: the run of a body, which ends at a return or behind the last
  instruction. -/
namespace A64Lowering.Ir
set_option autoImplicit false

open A64 (Word Mem Event)

/-! ## Operations -/

def BinaryOp.apply (a b : Word) : BinaryOp → Word
  | .add => a + b
  | .sub => a - b
  | .mul => a * b
  | .div => a.sdiv b
  | .and => a &&& b
  | .or => a ||| b

/-- Truth values are 0 and 1, so negation flips the lowest bit. -/
def UnaryOp.apply (a : Word) : UnaryOp → Word
  | .not => a ^^^ 1
  | .neg => -a

def CompareOp.holds (a b : Word) : CompareOp → Bool
  | .eq => a == b
  | .ne => a != b
  | .lt => a.slt b
  | .le => a.sle b
  | .gt => b.slt a
  | .ge => b.sle a

/-! ## States -/

structure State where
  val : VReg → Word
  mem : Mem
  log : List Event

/-- What lies around a fragment. -/
structure World where
  symbol : String → Word
  runtime : RuntimeSymbols
  /-- Whether a byte belongs to the heap or to a global variable. -/
  data : Word → Bool
  /-- The result of a routine and the memory it leaves, which may depend on all that happened. -/
  answer : (routine : String) → (args : List Word) → Mem → List Event → Word × Mem

/-- Whether the eight bytes from `a` on are data. -/
def World.dataCell (w : World) (a : Word) : Bool :=
  (List.range 8).all fun k => w.data (a + BitVec.ofNat 64 k)

namespace State

def set (σ : State) (r : VReg) (v : Word) : State := { σ with val := Function.update σ.val r v }

@[simp] theorem val_set_self (σ : State) (r : VReg) (v : Word) : (σ.set r v).val r = v := by
  simp [set]

theorem val_set_of_ne (σ : State) {r q : VReg} (v : Word) (h : q ≠ r) :
    (σ.set r v).val q = σ.val q := by
  simp [set, h]

@[simp] theorem set_val_self (σ : State) (r : VReg) : σ.set r (σ.val r) = σ := by
  simp [set]

@[simp] theorem mem_set (σ : State) (r : VReg) (v : Word) : (σ.set r v).mem = σ.mem := rfl
@[simp] theorem log_set (σ : State) (r : VReg) (v : Word) : (σ.set r v).log = σ.log := rfl

def operand (σ : State) : Operand → Word
  | .reg r => σ.val r
  | .imm n => n.toBitVec

/-- The word at `a`, if it is data. -/
def load? (σ : State) (w : World) (a : Word) : Option Word :=
  if w.dataCell a then some (σ.mem.read a) else none

/-- The state after writing `v` at `a`, if that is data. -/
def store? (σ : State) (w : World) (a v : Word) : Option State :=
  if w.dataCell a then
    some { σ with mem := σ.mem.write a v, log := σ.log ++ [.write a v] }
  else none

/-- The result of a routine, and the state in which it returns. -/
def call (σ : State) (w : World) (routine : String) (args : List Word) : Word × State :=
  let (result, mem) := w.answer routine args σ.mem σ.log
  (result, { σ with mem, log := σ.log ++ [.call routine args result] })

end State

/-- The bytes between an object's address and its field with this index. -/
def fieldDistance (index : UInt64) : Word := BitVec.ofNat 64 (8 * index.toNat)

/-- What an instruction does to a state, apart from where it goes on. -/
def Instruction.run (w : World) (σ : State) : Instruction → Option State
  | .mov target source => some (σ.set target (σ.operand source))
  | .binary op target lhs rhs => some (σ.set target (op.apply (σ.val lhs) (σ.operand rhs)))
  | .unary op target source => some (σ.set target (op.apply (σ.val source)))
  | .compare cond target lhs rhs =>
    some (σ.set target (if cond.holds (σ.val lhs) (σ.operand rhs) then 1 else 0))
  | .loadGlobal target name => (σ.load? w (w.symbol name)).map (σ.set target)
  | .storeGlobal source name => σ.store? w (w.symbol name) (σ.val source)
  | .loadField target base _ index =>
    (σ.load? w (σ.val base + fieldDistance index)).map (σ.set target)
  | .storeField source base _ index =>
    σ.store? w (σ.val base + fieldDistance index) (σ.val source)
  | .new target _ size =>
    let (result, σ) := σ.call w w.runtime.malloc [BitVec.ofNat 64 (8 * size.toNat)]
    some (σ.set target result)
  | .delete source => some (σ.call w w.runtime.free [σ.val source]).2
  | .print source => some (σ.call w w.runtime.printf [w.symbol intFormatLabel, σ.val source]).2
  | .call target function args =>
    let (result, σ) := σ.call w function (args.map σ.val)
    some (target.elim σ (σ.set · result))
  | .label _ | .branch _ | .condBranch _ _ _ | .ret _ => some σ

/-- The routine that an instruction calls, and the words that it passes. -/
def Instruction.call? (w : World) (σ : State) : Instruction → Option (String × List Word)
  | .new _ _ size => some (w.runtime.malloc, [BitVec.ofNat 64 (8 * size.toNat)])
  | .delete source => some (w.runtime.free, [σ.val source])
  | .print source => some (w.runtime.printf, [w.symbol intFormatLabel, σ.val source])
  | .call _ function args => some (function, args.map σ.val)
  | _ => none

/-- The index of the field that an instruction reads or writes. -/
def Instruction.index? : Instruction → Option UInt64
  | .loadField _ _ _ index | .storeField _ _ _ index => some index
  | _ => none

/-- Whether an instruction says where the run goes on. -/
def Instruction.steers : Instruction → Bool
  | .label _ | .branch _ | .condBranch _ _ _ | .ret _ => true
  | _ => false

/-! ## Runs -/

/-- The instructions after the first label with this name. -/
def Instruction.after (name : String) : List Instruction → Option (List Instruction)
  | [] => none
  | .label l :: body => if l = name then some body else after name body
  | _ :: body => after name body

/-- The instructions to run after one of `body` that stands before `rest`. -/
def next (body rest : List Instruction) (σ : State) : Instruction → Option (List Instruction)
  | .branch name => Instruction.after name body
  | .condBranch r onTrue name =>
    if (σ.val r != 0) = onTrue then Instruction.after name body else some rest
  | .ret _ => none
  | _ => some rest

/-- One instruction of a run through `body`. -/
def step (w : World) (body : List Instruction) :
    List Instruction × State → Option (List Instruction × State)
  | ([], _) => none
  | (inst :: rest, σ) => (next body rest σ inst).bind fun rest => (inst.run w σ).map (rest, ·)

/-- Some number of instructions of a run through `body`. -/
def Reaches (w : World) (body : List Instruction) :
    List Instruction × State → List Instruction × State → Prop :=
  Relation.ReflTransGen fun c d => step w body c = some d

/-- What a run that stands before these instructions returns, if it is at its end. -/
inductive Ends (σ : State) : List Instruction → Option Word → Prop where
  | behind : Ends σ [] none
  | ret (value : Option VReg) (rest : List Instruction) :
    Ends σ (.ret value :: rest) (value.map σ.val)

/-- The run of `body` from `σ` ends in `τ` and returns `value`. -/
def Finishes (w : World) (body : List Instruction) (σ : State) (value : Option Word) (τ : State) :
    Prop :=
  ∃ rest, Reaches w body (body, σ) (rest, τ) ∧ Ends τ rest value

end A64Lowering.Ir
