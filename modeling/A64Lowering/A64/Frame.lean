import A64Lowering.A64.Convention

/-! # Stack frames

After the prologue the frame lies so, from high addresses to low ones:

* `[x29 + 16 + 8 * i]`: the saved parameter `i`, in the caller's home area;
* `[x29 + 8]`: the saved link register;
* `[x29]`: the saved frame pointer;
* `[x29 - 8]` and below: the slots, down to `sp = x29 - localsSize`.

`Frame.ofSize`, `Frame.ofSlots` lay out a frame; `prologue` and `epilogue` open and close it. -/
namespace A64Lowering.A64
set_option autoImplicit false

/-- The sizes of a frame. -/
structure Frame where
  /-- Bytes of the slots. -/
  rawSize : UInt32
  /-- Bytes below the frame record. -/
  localsSize : UInt32
  deriving DecidableEq, Repr

namespace Frame

/-- The frame for `rawSize` bytes of slots. -/
def ofSize (rawSize : UInt32) : Except ConventionFault Frame :=
  if maxFrameSize < rawSize then .error (.frameTooLarge rawSize)
  else
    let localsSize := alignTo rawSize stackAlign
    if localsSize % stackAlign = 0 then .ok ⟨rawSize, localsSize⟩
    else .error (.misalignedFrame localsSize)

/-- The frame for `slots` slots. A size beyond 32 bits is reported as the largest of them. -/
def ofSlots (slots : Nat) : Except ConventionFault Frame :=
  if slots * slotSize.toNat < 0x100000000 then ofSize (.ofNat (slots * slotSize.toNat))
  else .error (.frameTooLarge 0xFFFFFFFF)

/-- Bytes that the prologue takes off the stack pointer. -/
def totalSize (f : Frame) : UInt32 := frameRecordSize + f.localsSize

/-- The locals area in steps that fit one immediate each: full steps, then the rest. -/
def spSteps (f : Frame) : List UInt32 :=
  let rest := f.localsSize % maxSpStep
  List.replicate (f.localsSize / maxSpStep).toNat maxSpStep ++ (if 0 < rest then [rest] else [])

/-- Saves the frame record, points the frame pointer at it and reserves the locals area. -/
def prologue (f : Frame) : List Inst :=
  [.subImm .sp .sp frameRecordSize, .stp .fp .lr .sp, .mov .fp .sp]
    ++ f.spSteps.map (.subImm .sp .sp)

/-- Gives the locals area back, restores the frame record and returns. -/
def epilogue (f : Frame) : List Inst :=
  f.spSteps.map (.addImm .sp .sp) ++ [.ldp .fp .lr .sp, .addImm .sp .sp frameRecordSize, .ret]

end Frame
end A64Lowering.A64
