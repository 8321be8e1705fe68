import A64Lowering.A64.Frame
import A64Lowering.Ir.Program

/-! # Where registers live

* `Home`: a slot below the frame pointer, or an argument register.
* `Layout`: the homes of a fragment's registers. Parameters stay in the argument registers they come
  in; every other register that the body defines has a slot of its own, in the order of the first
  definitions.
* `Layout.ofFragment`, `Layout.home?`. -/
namespace A64Lowering
set_option autoImplicit false

/-- Where a register lives while its fragment runs. -/
inductive Home where
  /-- The slot at this offset from the frame pointer. -/
  | slot (offset : Int32)
  /-- The argument register with this index. -/
  | param (index : Fin 8)
  deriving DecidableEq, Repr

/-- The homes of a fragment's registers. -/
structure Layout where
  params : List VReg
  /-- The registers with a slot, topmost slot first. -/
  slots : List VReg
  frame : A64.Frame
  params_length : params.length ≤ 8

/-- The registers that the body defines, parameters apart, in the order of their first definitions. -/
def Ir.Fragment.slotRegs (frag : Ir.Fragment) : List VReg :=
  ((frag.body.filterMap (·.target?)).filter (!frag.params.contains ·)).eraseDups

/-- The offset of the slot with this index, counted from the topmost one. -/
def slotOffset (index : Nat) : Int32 := .ofInt (-(8 * (index + 1) : Nat))

namespace Layout

/-- The layout of a fragment. -/
def ofFragment (frag : Ir.Fragment) : Except A64.ConventionFault Layout :=
  if h : frag.params.length ≤ 8 then
    (A64.Frame.ofSlots frag.slotRegs.length).map fun frame => ⟨frag.params, frag.slotRegs, frame, h⟩
  else .error (.tooManyParameters frag.params.length A64.maxRegParams)

/-- The index of a parameter: the first position at which it is listed. -/
def paramIndex? (l : Layout) (r : VReg) : Option (Fin 8) :=
  (l.params.finIdxOf? r).map (Fin.castLE l.params_length)

/-- The offset of the slot of `r`. -/
def slot? (l : Layout) (r : VReg) : Option Int32 := (l.slots.idxOf? r).map slotOffset

/-- The home of `r`. -/
def home? (l : Layout) (r : VReg) : Option Home :=
  match l.paramIndex? r with
  | some index => some (.param index)
  | none => (l.slot? r).map .slot

/-- The argument registers that are the home of a parameter, in ascending order. -/
def paramIndices (l : Layout) : List (Fin 8) :=
  (List.finRange 8).filter fun index => l.params.any fun r => l.paramIndex? r == some index

/-- How many registers have a slot. -/
def slotCount (l : Layout) : Nat := l.slots.length

end Layout
end A64Lowering
