import Mathlib
import A64Lowering.Ir.Interchange
import A64Lowering.Proofs.Json.Record
import A64Lowering.Proofs.Json.RoundTrip

/-! # Programs read back

* `Instruction.ofJson?_toJson`, `Fragment.ofJson?_toJson`, `Program.ofJson?_toJson`: what is written
  as a JSON value is read from it.
* `Program.ofText?_toText`: the text of every program is read as the program. -/
namespace A64Lowering
set_option autoImplicit false

theorem VReg.ofJson?_toJson (r : VReg) : VReg.ofJson? r.toJson = some r := by
  rw [VReg.ofJson?, VReg.toJson, Json.uint32?_ofWord]
  rfl

namespace Ir
open Json (listOf? optional? listOf?_ofList optional?_ofOption fields?_record)

theorem Operand.ofJson?_toJson (operand : Operand) : Operand.ofJson? operand.toJson = some operand := by
  cases operand with
  | reg r =>
    show (VReg.ofJson? r.toJson).map reg = _
    rw [VReg.ofJson?_toJson]
    rfl
  | imm n =>
    show (Json.integer n.toInt).int64?.map imm = _
    rw [Json.int64?_ofWord]
    rfl

theorem BinaryOp.ofJson?_name (op : BinaryOp) : BinaryOp.ofJson? (.string op.name) = some op := by
  cases op <;> rfl

theorem UnaryOp.ofJson?_name (op : UnaryOp) : UnaryOp.ofJson? (.string op.name) = some op := by
  cases op <;> rfl

theorem CompareOp.ofJson?_name (op : CompareOp) : CompareOp.ofJson? (.string op.name) = some op := by
  cases op <;> rfl

theorem optional?_register (r : Option VReg) :
    optional? VReg.ofJson? (some (Json.ofOption VReg.toJson r)) = some r :=
  optional?_ofOption VReg.ofJson?_toJson (fun _ => nofun) r

theorem listOf?_registers (rs : List VReg) :
    listOf? VReg.ofJson? (Json.ofList VReg.toJson rs) = some rs :=
  listOf?_ofList fun r _ => VReg.ofJson?_toJson r

namespace Instruction

theorem fieldNames?_name (inst : Instruction) :
    fieldNames? inst.name = some (inst.members.map Prod.fst) := by
  cases inst <;> rfl

theorem nodup_members (inst : Instruction) : (inst.members.map Prod.fst).Nodup := by
  cases inst <;> simp [members]

theorem ofFields?_members (inst : Instruction) :
    ofFields? inst.name (inst.members.map fun m => some m.2) = some inst := by
  cases inst <;>
    simp [name, members, ofFields?, VReg.ofJson?_toJson, Operand.ofJson?_toJson,
      BinaryOp.ofJson?_name, UnaryOp.ofJson?_name, CompareOp.ofJson?_name, optional?_register,
      listOf?_registers, Json.uint64?_ofWord, Json.text?_ofText, Json.bool?_ofBool]

/-- An instruction is read back from its name and its fields. -/
theorem ofJson?_toJson (inst : Instruction) : ofJson? inst.toJson = some inst := by
  have htag : Json.tagged? inst.toJson = some (inst.name, some (.record inst.members)) := rfl
  unfold ofJson?
  rw [htag]
  simp only [fieldNames?_name, Option.bind_eq_bind, Option.bind_some,
    fields?_record (nodup_members inst), ofFields?_members]

end Instruction

theorem Fragment.ofJson?_toJson (frag : Fragment) : Fragment.ofJson? frag.toJson = some frag := by
  have hfields : Json.fields? ["label", "params", "body"] frag.toJson
      = some [some (.string frag.label), some (Json.ofList VReg.toJson frag.params),
        some (Json.ofList Instruction.toJson frag.body)] := fields?_record (by simp)
  have hbody : listOf? Instruction.ofJson? (Json.ofList Instruction.toJson frag.body)
      = some frag.body := listOf?_ofList fun inst _ => inst.ofJson?_toJson
  unfold Fragment.ofJson?
  rw [hfields]
  simp only [Option.bind_eq_bind, Option.bind_some, Json.text?_ofText, listOf?_registers, hbody]
  rfl

theorem Program.ofJson?_toJson (p : Program) : Program.ofJson? p.toJson = some p := by
  have hfields : Json.fields? ["functions"] p.toJson
      = some [some (Json.ofList Fragment.toJson p.fragments)] := fields?_record (by simp)
  have hfragments : listOf? Fragment.ofJson? (Json.ofList Fragment.toJson p.fragments)
      = some p.fragments := listOf?_ofList fun frag _ => frag.ofJson?_toJson
  unfold Program.ofJson?
  rw [hfields]
  simp only [Option.bind_eq_bind, Option.bind_some, hfragments]
  rfl

/-- The text of every program is read as the program. -/
theorem Program.ofText?_toText (p : Program) : Program.ofText? p.toText = some p := by
  rw [Program.ofText?, Program.toText, Json.read?_pretty, Option.bind_some, Program.ofJson?_toJson]

end Ir
end A64Lowering
