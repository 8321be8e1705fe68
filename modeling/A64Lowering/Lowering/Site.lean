import A64Lowering.Lowering.Fault
import A64Lowering.Lowering.Layout
import A64Lowering.Settings

/-! # Moving values between homes and registers

* `Site`: what the lowering of one fragment has at hand.
* `Site.load`, `Site.store`: between the home of a register and a machine register.
* `Site.loadArg`, `Site.storeResult`: the same around a call, while parameters are saved.
* `loadImm`, `loadSlot`, `storeSlot`: the shortest form for an immediate or an offset. -/
namespace A64Lowering
set_option autoImplicit false

open A64

/-! ## Immediates and slots -/

/-- The largest magnitude that one move brings into a register. -/
def maxMovImm : Int64 := 65535

/-- Brings `imm` into `dst`. -/
def loadImm (dst : Reg) (imm : Int64) : List Inst :=
  if -maxMovImm ≤ imm ∧ imm ≤ maxMovImm then [.movImm dst imm] else [.ldrLiteral dst imm]

/-- Brings the address of a slot below the reach of an offset into the slot scratch register. -/
def slotAddress (offset : Int32) : List Inst :=
  let distance := offset.toInt.natAbs
  if distance ≤ maxAddImm.toNat then [.subImm slotScratch .fp (.ofNat distance)]
  else loadImm slotScratch (.ofNat distance) ++ [.sub slotScratch .fp slotScratch]

/-- Brings the slot at `offset` into `dst`. -/
def loadSlot (dst : Reg) (offset : Int32) : List Inst :=
  if minDirectOffset ≤ offset then [.ldr dst .fp offset]
  else slotAddress offset ++ [.ldr dst slotScratch 0]

/-- Writes `src` to the slot at `offset`. -/
def storeSlot (src : Reg) (offset : Int32) : List Inst :=
  if minDirectOffset ≤ offset then [.str src .fp offset]
  else slotAddress offset ++ [.str src slotScratch 0]

/-- Copies `src` to `dst` unless they are the same register. -/
def moveReg (dst src : Reg) : List Inst := if src = dst then [] else [.mov dst src]

/-- Saves parameter `index`. -/
def saveParam (index : Fin 8) (src : Reg) : Inst :=
  .str src .fp (paramSpillOffset (.ofNat index.val))

/-- Brings saved parameter `index` into `dst`. -/
def restoreParam (index : Fin 8) (dst : Reg) : Inst :=
  .ldr dst .fp (paramSpillOffset (.ofNat index.val))

/-! ## Homes -/

/-- What the lowering of one fragment has at hand. -/
structure Site where
  function : String
  layout : Layout
  settings : Settings
  /-- The names of the global variables. -/
  globals : List String

namespace Site

/-- The label before the epilogue. -/
def returnLabel (s : Site) : String := ".L" ++ s.function ++ "_ret"

def home (s : Site) (r : VReg) : Except LoweringFault Home :=
  match s.layout.home? r with
  | some home => .ok home
  | none => .error (.undefinedRegister r s.function)

/-- Brings the value of `r` into `dst`. -/
def load (s : Site) (dst : Reg) (r : VReg) : Except LoweringFault (List Inst) :=
  (s.home r).map fun
    | .slot offset => loadSlot dst offset
    | .param index => moveReg dst (argReg index)

/-- Makes `src` the value of `r`. -/
def store (s : Site) (src : Reg) (r : VReg) : Except LoweringFault (List Inst) :=
  (s.home r).map fun
    | .slot offset => storeSlot src offset
    | .param index => moveReg (argReg index) src

/-- Makes `src` the value of `r` while parameters are saved: a parameter gets it when it is
restored. -/
def storeResult (s : Site) (src : Reg) (r : VReg) : Except LoweringFault (List Inst) :=
  (s.home r).map fun
    | .slot offset => storeSlot src offset
    | .param index => [saveParam index src]

/-- Brings the value of `r` into `dst` while parameters are saved: argument registers may be
overwritten already. -/
def loadArg (s : Site) (dst : Reg) (r : VReg) : Except LoweringFault (List Inst) :=
  (s.home r).map fun
    | .slot offset => loadSlot dst offset
    | .param index => [restoreParam index dst]

def saveParams (s : Site) : List Inst :=
  s.layout.paramIndices.map fun index => saveParam index (argReg index)

def restoreParams (s : Site) : List Inst :=
  s.layout.paramIndices.map fun index => restoreParam index (argReg index)

end Site
end A64Lowering
