import A64Lowering.Ir.Program
import A64Lowering.Json.Printer
import A64Lowering.Json.Reader
import A64Lowering.Json.Record

/-! # Programs as JSON

* `Program.toText`: a program as pretty-printed JSON.
* `Program.ofText?`: the program of a JSON text.
* `toJson` and `ofJson?` on each type that programs are made of.

Records write their fields in the order of their declaration. An instruction is its name with the
record of its fields; an operation is its bare name. -/
namespace A64Lowering
set_option autoImplicit false

/-- The register as JSON: its number. -/
def VReg.toJson (r : VReg) : Json := .integer r.id.toNat

/-- The register of a JSON number. -/
def VReg.ofJson? (v : Json) : Option VReg := v.uint32?.map VReg.mk

namespace Ir

open Json (fields? tagged? bareTag? optional? listOf? text? bool? uint64? int64?)

/-! ## Operands and operations -/

def Operand.toJson : Operand → Json
  | reg r => .variant "Reg" r.toJson
  | imm n => .variant "Imm" (.integer n.toInt)

def Operand.ofJson? (v : Json) : Option Operand :=
  match tagged? v with
  | some ("Reg", some content) => (VReg.ofJson? content).map reg
  | some ("Imm", some content) => (int64? content).map imm
  | _ => none

def BinaryOp.name : BinaryOp → String
  | add => "Add"
  | sub => "Sub"
  | mul => "Mul"
  | div => "Div"
  | and => "And"
  | or => "Or"

def BinaryOp.ofName? : String → Option BinaryOp
  | "Add" => some add
  | "Sub" => some sub
  | "Mul" => some mul
  | "Div" => some div
  | "And" => some and
  | "Or" => some or
  | _ => none

def UnaryOp.name : UnaryOp → String
  | not => "Not"
  | neg => "Neg"

def UnaryOp.ofName? : String → Option UnaryOp
  | "Not" => some not
  | "Neg" => some neg
  | _ => none

def CompareOp.name : CompareOp → String
  | eq => "Eq"
  | ne => "Ne"
  | lt => "Lt"
  | le => "Le"
  | gt => "Gt"
  | ge => "Ge"

def CompareOp.ofName? : String → Option CompareOp
  | "Eq" => some eq
  | "Ne" => some ne
  | "Lt" => some lt
  | "Le" => some le
  | "Gt" => some gt
  | "Ge" => some ge
  | _ => none

def BinaryOp.ofJson? (v : Json) : Option BinaryOp := (bareTag? v).bind ofName?

def UnaryOp.ofJson? (v : Json) : Option UnaryOp := (bareTag? v).bind ofName?

def CompareOp.ofJson? (v : Json) : Option CompareOp := (bareTag? v).bind ofName?

/-! ## Instructions -/

namespace Instruction

def name : Instruction → String
  | mov .. => "Mov"
  | binary .. => "Binary"
  | unary .. => "Unary"
  | compare .. => "Compare"
  | loadGlobal .. => "LoadGlobal"
  | storeGlobal .. => "StoreGlobal"
  | loadField .. => "LoadField"
  | storeField .. => "StoreField"
  | new .. => "New"
  | delete _ => "Delete"
  | print _ => "Print"
  | label _ => "Label"
  | branch _ => "Branch"
  | condBranch .. => "CondBranch"
  | call .. => "Call"
  | ret _ => "Return"

/-- The fields of the instruction with their values. -/
def members : Instruction → List (String × Json)
  | mov target operand => [("target", target.toJson), ("operand", operand.toJson)]
  | binary op target lhs rhs =>
    [("op", .string op.name), ("target", target.toJson), ("lhs", lhs.toJson), ("rhs", rhs.toJson)]
  | unary op target source =>
    [("op", .string op.name), ("target", target.toJson), ("source", source.toJson)]
  | compare cond target lhs rhs =>
    [("cond", .string cond.name), ("target", target.toJson), ("lhs", lhs.toJson),
      ("rhs", rhs.toJson)]
  | loadGlobal target name => [("target", target.toJson), ("name", .string name)]
  | storeGlobal source name => [("source", source.toJson), ("name", .string name)]
  | loadField target base field index =>
    [("target", target.toJson), ("base", base.toJson), ("field", .string field),
      ("index", .integer index.toNat)]
  | storeField source base field index =>
    [("source", source.toJson), ("base", base.toJson), ("field", .string field),
      ("index", .integer index.toNat)]
  | new target typeName size =>
    [("target", target.toJson), ("type_name", .string typeName), ("size", .integer size.toNat)]
  | delete source => [("source", source.toJson)]
  | print source => [("source", source.toJson)]
  | label l => [("label", .string l)]
  | branch l => [("label", .string l)]
  | condBranch condition onTrue l =>
    [("condition", condition.toJson), ("on_true", .bool onTrue), ("label", .string l)]
  | call target function args =>
    [("target", Json.ofOption VReg.toJson target), ("function", .string function),
      ("args", Json.ofList VReg.toJson args)]
  | ret value => [("value", Json.ofOption VReg.toJson value)]

def toJson (inst : Instruction) : Json := .variant inst.name (.record inst.members)

/-- The names of the fields of the instruction with this name. -/
def fieldNames? : String → Option (List String)
  | "Mov" => some ["target", "operand"]
  | "Binary" => some ["op", "target", "lhs", "rhs"]
  | "Unary" => some ["op", "target", "source"]
  | "Compare" => some ["cond", "target", "lhs", "rhs"]
  | "LoadGlobal" => some ["target", "name"]
  | "StoreGlobal" => some ["source", "name"]
  | "LoadField" => some ["target", "base", "field", "index"]
  | "StoreField" => some ["source", "base", "field", "index"]
  | "New" => some ["target", "type_name", "size"]
  | "Delete" => some ["source"]
  | "Print" => some ["source"]
  | "Label" => some ["label"]
  | "Branch" => some ["label"]
  | "CondBranch" => some ["condition", "on_true", "label"]
  | "Call" => some ["target", "function", "args"]
  | "Return" => some ["value"]
  | _ => none

/-- The instruction with this name and these fields. -/
def ofFields? (name : String) (fields : List (Option Json)) : Option Instruction :=
  match name, fields with
  | "Mov", [some target, some operand] =>
    return mov (← VReg.ofJson? target) (← Operand.ofJson? operand)
  | "Binary", [some op, some target, some lhs, some rhs] =>
    return binary (← BinaryOp.ofJson? op) (← VReg.ofJson? target) (← VReg.ofJson? lhs)
      (← Operand.ofJson? rhs)
  | "Unary", [some op, some target, some source] =>
    return unary (← UnaryOp.ofJson? op) (← VReg.ofJson? target) (← VReg.ofJson? source)
  | "Compare", [some cond, some target, some lhs, some rhs] =>
    return compare (← CompareOp.ofJson? cond) (← VReg.ofJson? target) (← VReg.ofJson? lhs)
      (← Operand.ofJson? rhs)
  | "LoadGlobal", [some target, some name] =>
    return loadGlobal (← VReg.ofJson? target) (← text? name)
  | "StoreGlobal", [some source, some name] =>
    return storeGlobal (← VReg.ofJson? source) (← text? name)
  | "LoadField", [some target, some base, some field, some index] =>
    return loadField (← VReg.ofJson? target) (← VReg.ofJson? base) (← text? field)
      (← uint64? index)
  | "StoreField", [some source, some base, some field, some index] =>
    return storeField (← VReg.ofJson? source) (← VReg.ofJson? base) (← text? field)
      (← uint64? index)
  | "New", [some target, some typeName, some size] =>
    return new (← VReg.ofJson? target) (← text? typeName) (← uint64? size)
  | "Delete", [some source] => return delete (← VReg.ofJson? source)
  | "Print", [some source] => return print (← VReg.ofJson? source)
  | "Label", [some l] => return label (← text? l)
  | "Branch", [some l] => return branch (← text? l)
  | "CondBranch", [some condition, some onTrue, some l] =>
    return condBranch (← VReg.ofJson? condition) (← bool? onTrue) (← text? l)
  | "Call", [target, some function, some args] =>
    return call (← optional? VReg.ofJson? target) (← text? function)
      (← listOf? VReg.ofJson? args)
  | "Return", [value] => return ret (← optional? VReg.ofJson? value)
  | _, _ => none

def ofJson? (v : Json) : Option Instruction :=
  match tagged? v with
  | some (name, some content) => do
    let names ← fieldNames? name
    let fields ← fields? names content
    ofFields? name fields
  | _ => none

end Instruction

/-! ## Fragments and programs -/

def Fragment.toJson (frag : Fragment) : Json :=
  .record [("label", .string frag.label), ("params", Json.ofList VReg.toJson frag.params),
    ("body", Json.ofList Instruction.toJson frag.body)]

def Fragment.ofJson? (v : Json) : Option Fragment := do
  match ← fields? ["label", "params", "body"] v with
  | [some label, some params, some body] =>
    return ⟨← text? label, ← listOf? VReg.ofJson? params, ← listOf? Instruction.ofJson? body⟩
  | _ => none

def Program.toJson (p : Program) : Json :=
  .record [("functions", Json.ofList Fragment.toJson p.fragments)]

def Program.ofJson? (v : Json) : Option Program := do
  match ← fields? ["functions"] v with
  | [some fragments] => return ⟨← listOf? Fragment.ofJson? fragments⟩
  | _ => none

/-- The program as JSON text. -/
def Program.toText (p : Program) : String := p.toJson.pretty

/-- The program of a JSON text. -/
def Program.ofText? (text : String) : Option Program := (Json.read? text).bind ofJson?

end Ir
end A64Lowering
