import A64Lowering.Ir.Draft
import A64Lowering.Lowering.Program
import A64Lowering.Symbol.Instance

/-! # Compilation sessions

* `Session`: the register supply, the symbol table and the settings of one compilation unit.
* `Session.draft`, `Session.instantiate`: work that draws registers from the session.
* `Session.compile`, `Session.compileToText`, `Session.reset`. -/
namespace A64Lowering
set_option autoImplicit false

open A64 Ir

/-- What one compilation unit keeps. -/
structure Session where
  vregs : VRegSupply
  symbols : SymbolTable
  settings : Settings

namespace Session

/-- A session with nothing in it. -/
def start (settings : Settings) : Session := ⟨.fresh, .initial, settings⟩

/-- Builds a fragment with registers of the session. -/
def draft {α : Type} (s : Session) (label : String) (steps : Draft.Step α) :
    α × Fragment × Session :=
  let (a, d) := steps.run (Draft.start label s.vregs)
  (a, d.fragment, { s with vregs := d.vregs })

/-- Builds a struct instance with registers of the session. -/
def instantiate (s : Session) (proto : ScopeId) (name : String) (parent : ScopeId) :
    Except StructFault ScopeId × Session :=
  let (result, symbols, vregs) := s.symbols.instantiate proto name parent s.vregs
  (result, { s with symbols, vregs })

/-- The assembly lines of a program. -/
def compile (s : Session) (program : Program) : Except LoweringFault (List Line) :=
  lowerProgram s.settings s.symbols program

/-- The assembly text of a program. -/
def compileToText (s : Session) (program : Program) : Except LoweringFault String :=
  (s.compile program).map assembly

/-- The session without its registers and symbols. -/
def reset (s : Session) : Session := start s.settings

end Session
end A64Lowering
