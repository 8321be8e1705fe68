import A64Lowering.Ir.Listing
import A64Lowering.Lowering.Scratch
import A64Lowering.Text.Blank

/-! # Lowering one instruction

* `Site.operate`: the machine instructions for an instruction. Operands come from their homes into
  scratch registers, and the result goes to its home; nothing stays in a scratch register.
* `Site.lower`: the lines for an instruction, with all scratch registers given back.
* `Site.annotation`: the comment before them, if there is one. Whatever follows of it follows from
  `comment_of_annotationLine`. -/
namespace A64Lowering
set_option autoImplicit false

open A64 Ir

/-- The label of the format that integers are printed with. -/
def intFormatLabel : String := ".Lfmt_int"

/-- The instruction for an operation on two registers, with the result in the first one. -/
def binaryInst (op : BinaryOp) (lhs rhs : Reg) : Inst :=
  match op with
  | .add => .add lhs lhs rhs
  | .sub => .sub lhs lhs rhs
  | .mul => .mul lhs lhs rhs
  | .div => .sdiv lhs lhs rhs
  | .and => .and lhs lhs rhs
  | .or => .orr lhs lhs rhs

/-- The instruction for an operation on one register. -/
def unaryInst (op : UnaryOp) (reg : Reg) : Inst :=
  match op with
  | .not => .eorImm reg reg 1
  | .neg => .neg reg reg

def condition : CompareOp → Cond
  | .eq => .eq
  | .ne => .ne
  | .lt => .lt
  | .le => .le
  | .gt => .gt
  | .ge => .ge

/-- The instruction for an addition or subtraction of a small immediate, if there is one. -/
def immediateInst? (op : BinaryOp) (lhs : Reg) : Operand → Option Inst
  | .imm n =>
    if 0 ≤ n ∧ n < 4096 then
      match op with
      | .add => some (.addImm lhs lhs (.ofNat n.toInt.toNat))
      | .sub => some (.subImm lhs lhs (.ofNat n.toInt.toNat))
      | _ => none
    else none
  | .reg _ => none

/-- The byte offset of a field: the low 32 bits of its position as a signed number, in words. -/
def fieldOffset (index : UInt64) : Int32 := index.toUInt32.toInt32 * 8

/-- The bytes of an object: the 64 bits of its size as a signed number, in words. -/
def objectBytes (size : UInt64) : Int64 := size.toInt64 * 8

/-- Brings the address of `symbol` into `dst`. -/
def symbolAddress (dst : Reg) (symbol : String) : List Inst :=
  [.adrp dst symbol, .addLo12 dst dst symbol]

namespace Site

/-- Brings an operand into a register taken for it. -/
def operand (s : Site) : Operand → Scratch (Reg × List Inst)
  | .reg r => s.fetch r
  | .imm n => do
    let reg ← Scratch.acquire
    return (reg, loadImm reg n)

/-- Applies an operation to a register and an operand. -/
def applyBinary (s : Site) (op : BinaryOp) (lhs : Reg) (rhs : Operand) : Scratch (List Inst) :=
  match immediateInst? op lhs rhs with
  | some inst => return [inst]
  | none => do
    let (reg, code) ← s.operand rhs
    return code ++ [binaryInst op lhs reg]

/-- Goes on if `name` is a global variable. -/
def checkGlobal (s : Site) (name : String) : Except LoweringFault Unit :=
  if name ∈ s.globals then .ok () else .error (.unknownGlobal name s.function)

/-- Brings the values of `args` into argument registers, from this one on. -/
def loadArgs (s : Site) : (index : Nat) → (args : List VReg) → Except LoweringFault (List Inst)
  | _, [] => .ok []
  | index, arg :: args => do
    let first ← s.loadArg (.x (.ofNat index)) arg
    let rest ← s.loadArgs (index + 1) args
    return first ++ rest

/-- Calls a function between reserving a home area for it and giving that area back. -/
def callFunction (s : Site) (target : Option VReg) (function : String) (args : List VReg) :
    Except LoweringFault (List Inst) :=
  if args.length ≤ maxRegParams then do
    let home := homeAreaSize args.length
    let arguments ← s.loadArgs 0 args
    let result ← match target with
      | some r => s.storeResult resultReg r
      | none => .ok []
    return s.saveParams ++ (if 0 < home then [.subImm .sp .sp home] else []) ++ arguments
      ++ [.bl function] ++ (if 0 < home then [.addImm .sp .sp home] else []) ++ result
      ++ s.restoreParams
  else .error (.convention (.tooManyArguments args.length maxRegParams))

/-- The machine instructions for an instruction; a label has none. -/
def operate (s : Site) : Instruction → Scratch (List Inst)
  | .mov target source => do
    let (reg, code) ← s.operand source
    let result ← Scratch.ofExcept (s.store reg target)
    return code ++ result
  | .binary op target lhs rhs => do
    let (reg, code) ← s.fetch lhs
    let operation ← s.applyBinary op reg rhs
    let result ← Scratch.ofExcept (s.store reg target)
    return code ++ operation ++ result
  | .unary op target source => do
    let (reg, code) ← s.fetch source
    let result ← Scratch.ofExcept (s.store reg target)
    return code ++ [unaryInst op reg] ++ result
  | .compare cond target lhs rhs => do
    let (lhsReg, lhsCode) ← s.fetch lhs
    let (rhsReg, rhsCode) ← s.operand rhs
    let result ← Scratch.ofExcept (s.store lhsReg target)
    return lhsCode ++ rhsCode ++ [.cmp lhsReg rhsReg, .cset lhsReg (condition cond)] ++ result
  | .loadGlobal target name => do
    Scratch.ofExcept (s.checkGlobal name)
    let reg ← Scratch.acquire
    let result ← Scratch.ofExcept (s.store reg target)
    return symbolAddress reg name ++ [.ldr reg reg 0] ++ result
  | .storeGlobal source name => do
    Scratch.ofExcept (s.checkGlobal name)
    let (value, code) ← s.fetch source
    let address ← Scratch.acquire
    return code ++ symbolAddress address name ++ [.str value address 0]
  | .loadField target base _ index => do
    let (reg, code) ← s.fetch base
    let result ← Scratch.ofExcept (s.store reg target)
    return code ++ [.ldr reg reg (fieldOffset index)] ++ result
  | .storeField source base _ index => do
    let (value, valueCode) ← s.fetch source
    let (address, addressCode) ← s.fetch base
    return valueCode ++ addressCode ++ [.str value address (fieldOffset index)]
  | .new target _ size => do
    let result ← Scratch.ofExcept (s.storeResult resultReg target)
    return s.saveParams ++ loadImm resultReg (objectBytes size)
      ++ [.bl s.settings.runtime.malloc] ++ result ++ s.restoreParams
  | .delete source => do
    let argument ← Scratch.ofExcept (s.load (.x 0) source)
    return s.saveParams ++ argument ++ [.bl s.settings.runtime.free] ++ s.restoreParams
  | .print source => do
    -- The value comes first, since it may live in the register of the format.
    let argument ← Scratch.ofExcept (s.load (.x 1) source)
    return s.saveParams ++ argument ++ symbolAddress (.x 0) intFormatLabel
      ++ [.bl s.settings.runtime.printf] ++ s.restoreParams
  | .label _ => return []
  | .branch label => return [.b label]
  | .condBranch value onTrue label => do
    let (reg, code) ← s.fetch value
    return code ++ [if onTrue then .cbnz reg label else .cbz reg label]
  | .call target function args => Scratch.ofExcept (s.callFunction target function args)
  | .ret none => return [.b s.returnLabel]
  | .ret (some value) => do
    let code ← Scratch.ofExcept (s.load resultReg value)
    return code ++ [.b s.returnLabel]

/-- The lines for an instruction, without annotation. -/
def lines (s : Site) : Instruction → Scratch (List Line)
  | .label name => return [.label name]
  | inst => do
    let code ← s.operate inst
    return code.map .inst

/-- The comment before the lines of an instruction, if the settings ask for it. -/
def annotation (s : Site) (inst : Instruction) : List Line :=
  if s.settings.annotate then [.comment (Text.trim inst.text)] else []

theorem comment_of_annotationLine {s : Site} {inst : Instruction} {line : Line}
    (h : line ∈ s.annotation inst) : ∃ text, line = .comment text := by
  unfold annotation at h
  split at h
  · exact ⟨_, List.mem_singleton.mp h⟩
  · cases h

theorem label_notMem_annotationLines (s : Site) (inst : Instruction) (name : String) :
    Line.label name ∉ s.annotation inst := fun h => (comment_of_annotationLine h).elim nofun

theorem inst_notMem_annotationLines (s : Site) (inst : Instruction) (i : Inst) :
    Line.inst i ∉ s.annotation inst := fun h => (comment_of_annotationLine h).elim nofun

/-- What is read off lines other than comments is not in an annotation. -/
theorem filterMap_annotationLines {α : Type} {f : Line → Option α}
    (hf : ∀ text, f (.comment text) = none) (s : Site) (inst : Instruction) :
    (s.annotation inst).filterMap f = [] := by
  refine List.filterMap_eq_nil_iff.mpr fun line hline => ?_
  obtain ⟨text, rfl⟩ := comment_of_annotationLine hline
  exact hf text

/-- The lines for an instruction. All scratch registers are given back, also after a fault. -/
def lower (s : Site) (inst : Instruction) : Scratch (List Line) :=
  ExceptT.mk fun w =>
    let (result, w) := (s.lines inst).run w
    (result.map (s.annotation inst ++ ·), w.release)

end Site
end A64Lowering
