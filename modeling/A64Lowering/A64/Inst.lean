/-! # A64 instructions

* `Reg`, `Cond`, `Inst`: the machine instructions that lowering emits.
* `Line`: a line of assembly, which is an instruction, a label, a directive or a comment.

A memory operand is a base register with an offset in bytes. -/
namespace A64Lowering.A64
set_option autoImplicit false

/-- A general register, the stack pointer or the zero register. -/
inductive Reg where
  | x (n : UInt8)
  | sp
  | xzr
  deriving DecidableEq, Repr

/-- The frame pointer. -/
@[match_pattern] def Reg.fp : Reg := .x 29

/-- The link register. -/
@[match_pattern] def Reg.lr : Reg := .x 30

/-- The conditions that a comparison can be asked for. -/
inductive Cond where
  | eq
  | ne
  | lt
  | le
  | gt
  | ge
  deriving DecidableEq, Repr

/-- A machine instruction. -/
inductive Inst where
  /-- `rd = rn + rm` -/
  | add (rd rn rm : Reg)
  /-- `rd = rn - rm` -/
  | sub (rd rn rm : Reg)
  /-- `rd = rn * rm` -/
  | mul (rd rn rm : Reg)
  /-- `rd = rn / rm`, signed -/
  | sdiv (rd rn rm : Reg)
  /-- `rd = -rn` -/
  | neg (rd rn : Reg)
  /-- `rd = rn + imm` -/
  | addImm (rd rn : Reg) (imm : UInt32)
  /-- `rd = rn - imm` -/
  | subImm (rd rn : Reg) (imm : UInt32)
  /-- `rd = rn & rm` -/
  | and (rd rn rm : Reg)
  /-- `rd = rn | rm` -/
  | orr (rd rn rm : Reg)
  /-- `rd = rn ^ imm` -/
  | eorImm (rd rn : Reg) (imm : UInt64)
  /-- Compares `rn` with `rm`. -/
  | cmp (rn rm : Reg)
  /-- `rd = if cond then 1 else 0`, for the last comparison -/
  | cset (rd : Reg) (cond : Cond)
  /-- `rd = rn` -/
  | mov (rd rn : Reg)
  /-- `rd = imm`, for an immediate of sixteen bits -/
  | movImm (rd : Reg) (imm : Int64)
  /-- `rd = imm`, from a literal pool -/
  | ldrLiteral (rd : Reg) (imm : Int64)
  /-- `rt = [rn + offset]` -/
  | ldr (rt rn : Reg) (offset : Int32)
  /-- `[rn + offset] = rt` -/
  | str (rt rn : Reg) (offset : Int32)
  /-- `[rn] = rt₁, rt₂` -/
  | stp (rt₁ rt₂ rn : Reg)
  /-- `rt₁, rt₂ = [rn]` -/
  | ldp (rt₁ rt₂ rn : Reg)
  /-- `rd =` the page of `symbol` -/
  | adrp (rd : Reg) (symbol : String)
  /-- `rd = rn +` the low twelve bits of `symbol` -/
  | addLo12 (rd rn : Reg) (symbol : String)
  | b (label : String)
  | cbz (rt : Reg) (label : String)
  | cbnz (rt : Reg) (label : String)
  | bl (label : String)
  | ret
  deriving DecidableEq, Repr

/-- A line of assembly. -/
inductive Line where
  | inst (i : Inst)
  | label (name : String)
  | directive (text : String)
  | comment (text : String)
  deriving DecidableEq, Repr

end A64Lowering.A64
