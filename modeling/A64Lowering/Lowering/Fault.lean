import A64Lowering.A64.Convention
import A64Lowering.A64.Pool
import A64Lowering.VReg

/-! # Faults of the lowering

* `LoweringFault`: why a fragment cannot be lowered.
* `LoweringFault.message`, `LoweringFault.diagnostic`. -/
namespace A64Lowering
set_option autoImplicit false

/-- Why a fragment cannot be lowered. -/
inductive LoweringFault where
  | pool (fault : A64.PoolFault)
  | convention (fault : A64.ConventionFault)
  | unknownGlobal (name function : String)
  | undefinedRegister (vreg : VReg) (function : String)
  deriving DecidableEq, Repr

namespace LoweringFault

def message : LoweringFault → String
  | pool fault => fault.message
  | convention fault => fault.message
  | unknownGlobal name function =>
    "Unknown global variable '" ++ name ++ "' in function '" ++ function ++ "'"
  | undefinedRegister vreg function =>
    "Register " ++ vreg.text ++ " is read in function '" ++ function ++ "' but never defined"

/-- A name without a variable is the program's fault; a register without a definition is the
compiler's. -/
def diagnostic : LoweringFault → Diagnostic
  | pool fault => fault.diagnostic
  | convention fault => fault.diagnostic
  | fault@(unknownGlobal ..) => .semantic fault.message
  | fault@(undefinedRegister ..) => .internal fault.message

end LoweringFault
end A64Lowering
