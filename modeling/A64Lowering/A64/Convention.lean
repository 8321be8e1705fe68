import A64Lowering.A64.Inst
import A64Lowering.Diagnostic
import A64Lowering.Text.Decimal

/-! # The calling convention

* Arguments and results travel in `x0` to `x7`; `x16` holds the address of a deep slot; `x29` is the
  frame pointer and `x30` the link register.
* A parameter stays in its argument register. Around a call it is saved at `paramSpillOffset` above
  the frame pointer, in the home area that the caller reserved below its own stack pointer.
* `alignTo`: a size rounded up.
* `ConventionFault`: what a fragment can ask for beyond the convention. -/
namespace A64Lowering.A64
set_option autoImplicit false

/-! ## Faults -/

/-- A demand that the convention does not meet. -/
inductive ConventionFault where
  | tooManyParameters (count limit : Nat)
  | tooManyArguments (count limit : Nat)
  | misalignedFrame (bytes : UInt32)
  | frameTooLarge (bytes : UInt32)
  deriving DecidableEq, Repr

namespace ConventionFault

def message : ConventionFault → String
  | tooManyParameters count limit =>
    "Too many parameters: " ++ Decimal.ofNat count ++ " (maximum: " ++ Decimal.ofNat limit ++ ")"
  | tooManyArguments count limit =>
    "Too many call arguments: " ++ Decimal.ofNat count ++ " (maximum: " ++ Decimal.ofNat limit
      ++ ")"
  | misalignedFrame bytes =>
    "Stack frame of " ++ Decimal.ofNat bytes.toNat ++ " bytes is not 16-byte aligned"
  | frameTooLarge bytes => "Stack frame too large: " ++ Decimal.ofNat bytes.toNat ++ " bytes"

/-- The number of parameters and arguments is the program's choice; frames are the compiler's. -/
def diagnostic : ConventionFault → Diagnostic
  | fault@(tooManyParameters ..) => .semantic fault.message
  | fault@(tooManyArguments ..) => .semantic fault.message
  | fault@(misalignedFrame _) => .internal fault.message
  | fault@(frameTooLarge _) => .internal fault.message

end ConventionFault

/-! ## Sizes and limits -/

/-- How many arguments travel in registers. -/
def maxRegParams : Nat := 8

/-- Bytes that hold the saved frame pointer and link register. -/
def frameRecordSize : UInt32 := 16

def slotSize : UInt32 := 8

/-- The stack pointer is a multiple of this. -/
def stackAlign : UInt32 := 16

/-- The largest immediate of an addition or subtraction. -/
def maxAddImm : UInt32 := 4095

/-- The largest aligned step of the stack pointer in one addition or subtraction. -/
def maxSpStep : UInt32 := maxAddImm / stackAlign * stackAlign

/-- The largest frame whose slots have 32-bit offsets. -/
def maxFrameSize : UInt32 := 0x40000000

/-- The lowest offset that a memory access reaches from the frame pointer. -/
def minDirectOffset : Int32 := -256

/-! ## Registers -/

/-- The register that brings argument `index`. -/
def argReg (index : Fin 8) : Reg := .x (.ofNat index.val)

/-- The register that brings parameter `index`, counted from zero. -/
def paramReg (index : Nat) : Except ConventionFault Reg :=
  if h : index < 8 then .ok (argReg ⟨index, h⟩)
  else .error (.tooManyParameters (index + 1) maxRegParams)

/-- The register that brings a result back. -/
def resultReg : Reg := .x 0

/-- The register that holds the address of a slot too deep for an offset. -/
def slotScratch : Reg := .x 16

/-! ## Addresses and areas -/

/-- Where parameter `index` is saved around a call, above the frame pointer. -/
def paramSpillOffset (index : UInt8) : Int32 :=
  frameRecordSize.toInt32 + .ofNat index.toNat * slotSize.toInt32

/-- `size` rounded up to a multiple of `align`. -/
def alignTo (size align : UInt32) : UInt32 :=
  (if size % align = 0 then size / align else size / align + 1) * align

/-- Bytes that a caller reserves for a callee with this many parameters. -/
def homeAreaSize (args : Nat) : UInt32 := alignTo (.ofNat args * slotSize) stackAlign

end A64Lowering.A64
