import A64Lowering.A64.Inst
import A64Lowering.Text.Decimal
import A64Lowering.Text.Lines

/-! # Assembly text

The text of registers, instructions and lines. Every line but a label starts with a tab. -/
namespace A64Lowering.A64
set_option autoImplicit false

def Reg.text : Reg → String
  | x n => "x" ++ Decimal.ofNat n.toNat
  | sp => "sp"
  | xzr => "xzr"

def Cond.text : Cond → String
  | eq => "eq"
  | ne => "ne"
  | lt => "lt"
  | le => "le"
  | gt => "gt"
  | ge => "ge"

/-- A mnemonic, and operands with a comma and a blank between neighbours. -/
def withOperands (mnemonic : String) : List String → String
  | [] => "\t" ++ mnemonic
  | first :: rest => "\t" ++ mnemonic ++ " " ++ first ++ operandsAfter rest
where
  /-- The operands after the first one. -/
  operandsAfter : List String → String
    | [] => ""
    | operand :: rest => ", " ++ operand ++ operandsAfter rest

/-- A memory operand; the offset zero is left out. -/
def address (base : Reg) (offset : Int32) : String :=
  if offset = 0 then "[" ++ base.text ++ "]"
  else "[" ++ base.text ++ ", #" ++ Decimal.ofInt offset.toInt ++ "]"

def Inst.text : Inst → String
  | add rd rn rm => withOperands "add" [rd.text, rn.text, rm.text]
  | sub rd rn rm => withOperands "sub" [rd.text, rn.text, rm.text]
  | mul rd rn rm => withOperands "mul" [rd.text, rn.text, rm.text]
  | sdiv rd rn rm => withOperands "sdiv" [rd.text, rn.text, rm.text]
  | neg rd rn => withOperands "neg" [rd.text, rn.text]
  | addImm rd rn imm => withOperands "add" [rd.text, rn.text, "#" ++ Decimal.ofNat imm.toNat]
  | subImm rd rn imm => withOperands "sub" [rd.text, rn.text, "#" ++ Decimal.ofNat imm.toNat]
  | and rd rn rm => withOperands "and" [rd.text, rn.text, rm.text]
  | orr rd rn rm => withOperands "orr" [rd.text, rn.text, rm.text]
  | eorImm rd rn imm => withOperands "eor" [rd.text, rn.text, "#" ++ Decimal.ofNat imm.toNat]
  | cmp rn rm => withOperands "cmp" [rn.text, rm.text]
  | cset rd cond => withOperands "cset" [rd.text, cond.text]
  | mov rd rn => withOperands "mov" [rd.text, rn.text]
  | movImm rd imm => withOperands "mov" [rd.text, "#" ++ Decimal.ofInt imm.toInt]
  | ldrLiteral rd imm => withOperands "ldr" [rd.text, "=" ++ Decimal.ofInt imm.toInt]
  | ldr rt rn offset => withOperands "ldr" [rt.text, address rn offset]
  | str rt rn offset => withOperands "str" [rt.text, address rn offset]
  | stp rt₁ rt₂ rn => withOperands "stp" [rt₁.text, rt₂.text, address rn 0]
  | ldp rt₁ rt₂ rn => withOperands "ldp" [rt₁.text, rt₂.text, address rn 0]
  | adrp rd symbol => withOperands "adrp" [rd.text, symbol]
  | addLo12 rd rn symbol => withOperands "add" [rd.text, rn.text, ":lo12:" ++ symbol]
  | b label => withOperands "b" [label]
  | cbz rt label => withOperands "cbz" [rt.text, label]
  | cbnz rt label => withOperands "cbnz" [rt.text, label]
  | bl label => withOperands "bl" [label]
  | ret => withOperands "ret" []

/-- The line as assemblers read it. -/
def Line.text : Line → String
  | inst i => i.text
  | label name => name ++ ":"
  | directive text => "\t" ++ text
  | comment text => "\t// " ++ text

/-- The lines as one text, each ended by a line feed. -/
def assembly (lines : List Line) : String := Text.joinLines (lines.map Line.text)

end A64Lowering.A64
