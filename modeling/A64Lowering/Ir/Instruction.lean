import A64Lowering.VReg

/-! # Register instructions

* `Operand`, `BinaryOp`, `UnaryOp`, `CompareOp`: what instructions compute with.
* `Instruction`: one step of a fragment. It defines at most one register and reads any number.
* `Instruction.target?`, `sources`: the register defined, and those read, in operand order.
* `Instruction.label?`, `withLabel?`: the label named, and the same instruction with another one.
* `Instruction.isCall`: whether it leaves the fragment, which overwrites argument registers. -/
namespace A64Lowering.Ir
set_option autoImplicit false

/-- The last operand of an arithmetic instruction or a comparison. -/
inductive Operand where
  | reg (r : VReg)
  | imm (n : Int64)
  deriving DecidableEq, Repr

/-- Operations on two words. -/
inductive BinaryOp where
  | add
  | sub
  | mul
  | div
  | and
  | or
  deriving DecidableEq, Repr

/-- Operations on one word. -/
inductive UnaryOp where
  /-- Negation of a truth value, which is 0 or 1. -/
  | not
  | neg
  deriving DecidableEq, Repr

/-- Signed comparisons, with the result 0 or 1. -/
inductive CompareOp where
  | eq
  | ne
  | lt
  | le
  | gt
  | ge
  deriving DecidableEq, Repr

/-- One step of a fragment. -/
inductive Instruction where
  /-- `target = operand` -/
  | mov (target : VReg) (operand : Operand)
  /-- `target = lhs op rhs` -/
  | binary (op : BinaryOp) (target lhs : VReg) (rhs : Operand)
  /-- `target = op source` -/
  | unary (op : UnaryOp) (target source : VReg)
  /-- `target = if lhs cond rhs then 1 else 0` -/
  | compare (cond : CompareOp) (target lhs : VReg) (rhs : Operand)
  /-- Reads a global variable. -/
  | loadGlobal (target : VReg) (name : String)
  /-- Writes a global variable. -/
  | storeGlobal (source : VReg) (name : String)
  /-- `target = base.field`, where `index` is the field's position in its struct. -/
  | loadField (target base : VReg) (field : String) (index : UInt64)
  /-- `base.field = source`. -/
  | storeField (source base : VReg) (field : String) (index : UInt64)
  /-- Takes heap memory for `size` words. -/
  | new (target : VReg) (typeName : String) (size : UInt64)
  /-- Gives heap memory back. -/
  | delete (source : VReg)
  /-- Prints an integer and a line feed. -/
  | print (source : VReg)
  /-- A place that branches go to. -/
  | label (label : String)
  | branch (label : String)
  /-- Branches if `condition` is nonzero, or if it is zero when `onTrue` is false. -/
  | condBranch (condition : VReg) (onTrue : Bool) (label : String)
  /-- `target = function args` -/
  | call (target : Option VReg) (function : String) (args : List VReg)
  /-- Leaves the fragment. -/
  | ret (value : Option VReg)
  deriving DecidableEq, Repr

def Operand.reg? : Operand → Option VReg
  | reg r => some r
  | imm _ => none

def Operand.imm? : Operand → Option Int64
  | reg _ => none
  | imm n => some n

namespace Instruction

/-- The register that the instruction defines. -/
def target? : Instruction → Option VReg
  | mov target _ | binary _ target _ _ | unary _ target _ | compare _ target _ _
  | loadGlobal target _ | loadField target _ _ _ | new target _ _ => some target
  | call target _ _ => target
  | storeGlobal .. | storeField .. | delete _ | print _ | label _ | branch _ | condBranch ..
  | ret _ => none

/-- The registers that the instruction defines, at most one. -/
def targets (inst : Instruction) : List VReg := inst.target?.toList

/-- The registers that the instruction reads, in operand order. -/
def sources : Instruction → List VReg
  | mov _ operand => operand.reg?.toList
  | binary _ _ lhs rhs | compare _ _ lhs rhs => lhs :: rhs.reg?.toList
  | unary _ _ source | storeGlobal source _ | delete source | print source => [source]
  | loadField _ base _ _ => [base]
  | storeField source base _ _ => [source, base]
  | condBranch condition _ _ => [condition]
  | call _ _ args => args
  | ret value => value.toList
  | loadGlobal .. | new .. | label _ | branch _ => []

/-- The immediate that the instruction holds. -/
def immediate? : Instruction → Option Int64
  | mov _ operand => operand.imm?
  | binary _ _ _ rhs | compare _ _ _ rhs => rhs.imm?
  | _ => none

/-- The label that the instruction names. -/
def label? : Instruction → Option String
  | label l | branch l | condBranch _ _ l => some l
  | _ => none

/-- The instruction with another label, if it names one. -/
def withLabel? (newLabel : String) : Instruction → Option Instruction
  | label _ => some (label newLabel)
  | branch _ => some (branch newLabel)
  | condBranch condition onTrue _ => some (condBranch condition onTrue newLabel)
  | _ => none

/-- Whether the instruction runs code outside the fragment. -/
def isCall : Instruction → Bool
  | call .. | new .. | delete _ | print _ => true
  | _ => false

/-- The instructions that name a label are those whose label can be changed. -/
theorem isSome_withLabel? (newLabel : String) (inst : Instruction) :
    (inst.withLabel? newLabel).isSome = inst.label?.isSome := by
  cases inst <;> rfl

/-- Changing the label leaves the new one. -/
theorem label?_of_withLabel? {newLabel : String} {inst changed : Instruction}
    (h : inst.withLabel? newLabel = some changed) : changed.label? = some newLabel := by
  cases inst <;> simp [withLabel?] at h <;> subst h <;> rfl

end Instruction
end A64Lowering.Ir
