import A64Lowering.Ir.Instruction

/-! # Fragments and programs

* `Fragment`: one function, with its label, its parameter registers and its body.
* `Program`: the fragments of a compilation unit, in order.
* `Program.find?`: the first fragment with a label. -/
namespace A64Lowering.Ir
set_option autoImplicit false

/-- One function. -/
structure Fragment where
  label : String
  /-- The registers that hold the arguments, in order. -/
  params : List VReg
  body : List Instruction
  deriving DecidableEq, Repr

/-- The fragments of a compilation unit. -/
structure Program where
  fragments : List Fragment
  deriving DecidableEq, Repr

def Program.empty : Program := ⟨[]⟩

/-- The program with one more fragment at the end. -/
def Program.push (p : Program) (frag : Fragment) : Program := ⟨p.fragments ++ [frag]⟩

/-- The first fragment with this label. -/
def Program.find? (p : Program) (label : String) : Option Fragment :=
  p.fragments.find? (·.label == label)

end A64Lowering.Ir
