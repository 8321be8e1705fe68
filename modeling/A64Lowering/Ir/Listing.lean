import A64Lowering.Ir.Program
import A64Lowering.Text.Lines

/-! # Listings

The text of instructions, fragments and programs. An instruction is one line, indented unless it
is a label; a fragment is a heading and its instructions. -/
namespace A64Lowering.Ir
set_option autoImplicit false

open Text (commaSeparated joinLines)

def Operand.text : Operand → String
  | reg r => r.text
  | imm n => "#" ++ Decimal.ofInt n.toInt

def BinaryOp.text : BinaryOp → String
  | add => "add"
  | sub => "sub"
  | mul => "mul"
  | div => "div"
  | and => "and"
  | or => "or"

def UnaryOp.text : UnaryOp → String
  | not => "not"
  | neg => "neg"

def CompareOp.text : CompareOp → String
  | eq => "eq"
  | ne => "ne"
  | lt => "lt"
  | le => "le"
  | gt => "gt"
  | ge => "ge"

def Instruction.text : Instruction → String
  | mov target operand => "    mov " ++ commaSeparated [target.text, operand.text]
  | binary op target lhs rhs =>
    "    " ++ op.text ++ " " ++ commaSeparated [target.text, lhs.text, rhs.text]
  | unary op target source => "    " ++ op.text ++ " " ++ commaSeparated [target.text, source.text]
  | compare cond target lhs rhs =>
    "    cmp." ++ cond.text ++ " " ++ commaSeparated [target.text, lhs.text, rhs.text]
  | loadGlobal target name => "    ldg " ++ target.text ++ ",@" ++ name
  | storeGlobal source name => "    stg " ++ source.text ++ ",@" ++ name
  | loadField target base field _ => "    ldf " ++ target.text ++ "," ++ base.text ++ "." ++ field
  | storeField source base field _ => "    stf " ++ source.text ++ "," ++ base.text ++ "." ++ field
  | new target typeName _ => "    new " ++ target.text ++ "," ++ typeName
  | delete source => "    delete " ++ source.text
  | print source => "    print " ++ source.text
  | label l => l ++ ":"
  | branch l => "    b " ++ l
  | condBranch condition onTrue l =>
    (if onTrue then "    cbnz " else "    cbz ") ++ condition.text ++ "," ++ l
  | call target function args =>
    let result := match target with
      | some r => r.text ++ ","
      | none => ""
    "    call " ++ result ++ function ++ "(" ++ commaSeparated (args.map VReg.text) ++ ")"
  | ret (some value) => "    ret " ++ value.text
  | ret none => "    ret"

/-- The heading of a fragment and its instructions. -/
def Fragment.text (frag : Fragment) : String :=
  joinLines (("func " ++ frag.label ++ "(" ++ commaSeparated (frag.params.map VReg.text) ++ "):")
    :: frag.body.map Instruction.text)

/-- The fragments one after another. -/
def Program.text (p : Program) : String := String.join (p.fragments.map Fragment.text)

end A64Lowering.Ir
