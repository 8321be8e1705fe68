import A64Lowering.Json.Reader
import A64Lowering.Json.Record

/-! # Settings of the lowering

* `Settings`: the architecture, whether lines are annotated, and the names of the runtime routines.
* `Settings.ofJson?`: settings from JSON, where a missing field takes its default. -/
namespace A64Lowering
set_option autoImplicit false

/-- The names of the runtime routines that the emitted code calls. -/
structure RuntimeSymbols where
  malloc : String
  free : String
  printf : String
  deriving DecidableEq, Repr

/-- Settings of the lowering. -/
structure Settings where
  /-- The value of the `.arch` directive. -/
  arch : String
  /-- Whether each instruction is preceded by its listing as a comment. -/
  annotate : Bool
  runtime : RuntimeSymbols
  deriving DecidableEq, Repr

def RuntimeSymbols.default : RuntimeSymbols := ⟨"malloc", "free", "printf"⟩

def Settings.default : Settings := ⟨"armv8-a", false, .default⟩

open Json (fields? slots? text? bool? withDefault?)

def RuntimeSymbols.toJson (r : RuntimeSymbols) : Json :=
  .record [("malloc", .string r.malloc), ("free", .string r.free), ("printf", .string r.printf)]

/-- The names of a JSON value; all three have to be there. -/
def RuntimeSymbols.ofJson? (v : Json) : Option RuntimeSymbols := do
  match ← fields? ["malloc", "free", "printf"] v with
  | [some malloc, some free, some printf] => return ⟨← text? malloc, ← text? free, ← text? printf⟩
  | _ => none

def Settings.toJson (s : Settings) : Json :=
  .record [("arch", .string s.arch), ("annotate_ir", .bool s.annotate),
    ("runtime", s.runtime.toJson)]

/-- The settings of a JSON value; fields that are missing take their default. -/
def Settings.ofJson? (v : Json) : Option Settings := do
  match ← slots? ["arch", "annotate_ir", "runtime"] v with
  | [arch, annotate, runtime] =>
    return ⟨← withDefault? Settings.default.arch text? arch,
      ← withDefault? Settings.default.annotate bool? annotate,
      ← withDefault? Settings.default.runtime RuntimeSymbols.ofJson? runtime⟩
  | _ => none

/-- The settings of a JSON text. -/
def Settings.ofText? (text : String) : Option Settings := (Json.read? text).bind ofJson?

end A64Lowering
