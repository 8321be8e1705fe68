import A64Lowering.A64.Text
import A64Lowering.Lowering.Data
import A64Lowering.Lowering.Fragment

/-! # Lowering a program

* `lowerProgram`: the architecture, the data of the global variables, the format that integers are
  printed with, then every fragment. All fragments share one pool; the first fault ends it. -/
namespace A64Lowering
set_option autoImplicit false

open A64 Ir

/-- The lines of the fragments one after another. -/
def lowerFragments (settings : Settings) (globals : List String) :
    (fragments : List Fragment) → (pool : Pool) → Except LoweringFault (List Line)
  | [], _ => .ok []
  | frag :: fragments, pool => do
    let (result, pool) := lowerFragment settings globals frag pool
    let first ← result
    let rest ← lowerFragments settings globals fragments pool
    return first ++ rest

/-- The lines before the code. -/
def fileHeading (settings : Settings) (symbols : SymbolTable) : List Line :=
  [.directive (".arch " ++ settings.arch)] ++ dataSection symbols.globalVariables
    ++ [.directive ".section .rodata", .label intFormatLabel, .directive ".asciz \"%ld\\n\"",
      .directive ".text"]

/-- The lines of a program. -/
def lowerProgram (settings : Settings) (symbols : SymbolTable) (program : Program) :
    Except LoweringFault (List Line) :=
  let globals := symbols.globalVariables.map (·.1)
  (lowerFragments settings globals program.fragments .temporaries).map
    (fileHeading settings symbols ++ ·)

end A64Lowering
