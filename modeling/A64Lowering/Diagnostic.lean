/-! # Diagnostics

* `Diagnostic`: what a driving tool learns of a failure, namely whose fault it is and its wording.
* `Diagnostic.text`, `Diagnostic.isInternal`. -/
namespace A64Lowering
set_option autoImplicit false

/-- A failure as reported to whoever drives a compilation. -/
inductive Diagnostic where
  /-- The program under compilation is at fault. -/
  | semantic (message : String)
  /-- An invariant of the compiler is broken. -/
  | internal (message : String)
  deriving DecidableEq, Repr

namespace Diagnostic

/-- The wording, led by whose fault it is. -/
def text : Diagnostic → String
  | semantic message => "Semantic error: " ++ message
  | internal message => "Internal compiler error: " ++ message

/-- Whether the compiler is at fault. -/
def isInternal : Diagnostic → Bool
  | semantic _ => false
  | internal _ => true

end Diagnostic
end A64Lowering
