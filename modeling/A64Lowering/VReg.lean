import A64Lowering.Text.Decimal

/-! # Virtual registers

* `VReg`: a name for a value before it has a home.
* `VRegSupply`: hands out registers, each identifier once. `draw_fst` and `drawn_draw` say which
  register comes next and how the count moves. -/
namespace A64Lowering
set_option autoImplicit false

/-- A virtual register, named by a 32-bit number. -/
structure VReg where
  id : UInt32
  deriving DecidableEq, Repr

/-- The register as listings show it. -/
def VReg.text (r : VReg) : String := "r" ++ Decimal.ofNat r.id.toNat

/-- The registers handed out so far are those below `next`. -/
structure VRegSupply where
  next : UInt32
  deriving DecidableEq, Repr

namespace VRegSupply

/-- The supply that has handed out nothing. -/
def fresh : VRegSupply := ⟨0⟩

/-- How many registers have been handed out. -/
def drawn (s : VRegSupply) : UInt32 := s.next

/-- The next register, and the supply without it. -/
def draw (s : VRegSupply) : VReg × VRegSupply := (⟨s.next⟩, ⟨s.next + 1⟩)

@[simp] theorem draw_fst (s : VRegSupply) : s.draw.1 = ⟨s.drawn⟩ := rfl

@[simp] theorem drawn_draw (s : VRegSupply) : s.draw.2.drawn = s.drawn + 1 := rfl

end VRegSupply
end A64Lowering
