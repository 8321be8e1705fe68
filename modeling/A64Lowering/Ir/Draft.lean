import A64Lowering.Ir.Program
import A64Lowering.Text.Decimal

/-! # Fragments under construction

* `Draft`: a fragment to which instructions are added at the end, with the supply that its
  registers come from and the number of its next label.
* Each step that produces a value draws the register for it and returns that register. -/
namespace A64Lowering.Ir
set_option autoImplicit false

structure Draft where
  fragment : Fragment
  vregs : VRegSupply
  nextLabel : UInt32
  deriving DecidableEq, Repr

namespace Draft

def start (label : String) (vregs : VRegSupply) : Draft := ⟨⟨label, [], []⟩, vregs, 0⟩

/-- A step of the construction. -/
abbrev Step := StateM Draft

def draw : Step VReg := fun d =>
  let (r, vregs) := d.vregs.draw
  (r, { d with vregs })

def push (inst : Instruction) : Step Unit := fun d =>
  ((), { d with fragment := { d.fragment with body := d.fragment.body ++ [inst] } })

/-- Makes `r` the next parameter. -/
def bindParam (r : VReg) : Step Unit := fun d =>
  ((), { d with fragment := { d.fragment with params := d.fragment.params ++ [r] } })

/-- Draws a register for the next parameter. -/
def param : Step VReg := do
  let r ← draw
  bindParam r
  return r

/-- The next label: the fragment's own label and a number. -/
def freshLabel : Step String := fun d =>
  (".L" ++ d.fragment.label ++ "_" ++ Decimal.ofNat d.nextLabel.toNat,
    { d with nextLabel := d.nextLabel + 1 })

/-- Draws a register and adds the instruction that defines it. -/
def define (inst : VReg → Instruction) : Step VReg := do
  let target ← draw
  push (inst target)
  return target

def mov (operand : Operand) : Step VReg := define fun target => .mov target operand

def binary (op : BinaryOp) (lhs : VReg) (rhs : Operand) : Step VReg :=
  define fun target => .binary op target lhs rhs

def unary (op : UnaryOp) (source : VReg) : Step VReg :=
  define fun target => .unary op target source

def compare (cond : CompareOp) (lhs : VReg) (rhs : Operand) : Step VReg :=
  define fun target => .compare cond target lhs rhs

def loadGlobal (name : String) : Step VReg := define fun target => .loadGlobal target name

def loadField (base : VReg) (field : String) (index : UInt64) : Step VReg :=
  define fun target => .loadField target base field index

def newObject (typeName : String) (size : UInt64) : Step VReg :=
  define fun target => .new target typeName size

def call (function : String) (args : List VReg) : Step VReg :=
  define fun target => .call (some target) function args

end Draft
end A64Lowering.Ir
