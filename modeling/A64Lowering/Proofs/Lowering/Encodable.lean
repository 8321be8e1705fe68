import Mathlib
import A64Lowering.Proofs.Ir.Meaning
import A64Lowering.Proofs.Lowering.Emits
import A64Lowering.Proofs.Lowering.Homes
import A64Lowering.Proofs.Machine.Run

/-! # Which instructions can be encoded

* `Inst.Encodable`: registers, immediates and offsets have an encoding.
* `Inst.Plain`: encodable, and the line after it comes next. Everything that moves values is plain.
* `encodable_of_emits`, `encodable_of_lowers`: what lowering emits is encodable exactly if the offsets
  of the fields are. -/
namespace A64Lowering
set_option autoImplicit false

open A64 Ir

/-! ## Encodings -/

namespace A64

/-- The stack pointer or one of `x0` to `x30`. -/
def Reg.Encodable : Reg → Prop
  | .x n => n.toNat ≤ 30
  | .sp => True
  | .xzr => False

instance : DecidablePred Reg.Encodable
  | .x n => inferInstanceAs (Decidable (n.toNat ≤ 30))
  | .sp => instDecidableTrue
  | .xzr => instDecidableFalse

/-- An unscaled offset of nine bits, or a scaled one of twelve bits. -/
def OffsetEncodable (offset : Int32) : Prop :=
  -256 ≤ offset.toInt ∧ offset.toInt ≤ 255 ∨
    0 ≤ offset.toInt ∧ offset.toInt ≤ 32760 ∧ offset.toInt % 8 = 0

instance : DecidablePred OffsetEncodable := fun _ => inferInstanceAs (Decidable (_ ∨ _))

namespace Inst

/-- The registers that an instruction names. -/
def regs : Inst → List Reg
  | .add rd rn rm | .sub rd rn rm | .mul rd rn rm | .sdiv rd rn rm | .and rd rn rm
  | .orr rd rn rm | .stp rd rn rm | .ldp rd rn rm => [rd, rn, rm]
  | .neg rd rn | .addImm rd rn _ | .subImm rd rn _ | .eorImm rd rn _ | .cmp rd rn | .mov rd rn
  | .ldr rd rn _ | .str rd rn _ | .addLo12 rd rn _ => [rd, rn]
  | .cset rd _ | .movImm rd _ | .ldrLiteral rd _ | .adrp rd _ | .cbz rd _ | .cbnz rd _ => [rd]
  | .b _ | .bl _ | .ret => []

/-- The bounds of immediates and offsets. -/
def NumberEncodable : Inst → Prop
  | .addImm _ _ imm | .subImm _ _ imm => imm.toNat ≤ 4095
  | .movImm _ imm => -65535 ≤ imm.toInt ∧ imm.toInt ≤ 65535
  | .ldr _ _ offset | .str _ _ offset => OffsetEncodable offset
  | _ => True

instance : DecidablePred NumberEncodable := fun i => by
  unfold NumberEncodable
  split <;> infer_instance

def Encodable (i : Inst) : Prop := (∀ r ∈ i.regs, r.Encodable) ∧ i.NumberEncodable

instance : DecidablePred Encodable := fun _ => inferInstanceAs (Decidable (_ ∧ _))

/-- An encodable instruction after which the next line runs. -/
def Plain (i : Inst) : Prop := i.falls = true ∧ i.Encodable

end Inst
end A64

/-! ## Moving values -/

theorem encodable_of_mem {lo hi : ℕ} {r : Reg} (h : r ∈ Reg.among lo hi) (hhi : hi ≤ 30) :
    r.Encodable := by
  obtain ⟨n, -, hn, rfl⟩ := h
  exact hn.trans hhi

theorem fp_encodable : Reg.fp.Encodable := encodable_of_mem Reg.fp_mem (by omega)

theorem slotScratch_encodable : slotScratch.Encodable :=
  encodable_of_mem Reg.slotScratch_mem (by omega)

section Parts
variable {s : Site} {dst src : Reg} {r : VReg} {off : Int32} {code : List Inst}

theorem plain_loadImm (hdst : dst.Encodable) (n : Int64) : ∀ i ∈ loadImm dst n, i.Plain := by
  have hmax : maxMovImm.toInt = 65535 := rfl
  have hmin : (-maxMovImm).toInt = -65535 := rfl
  rw [loadImm]
  split
  · next hn =>
    rw [Int64.le_iff_toInt_le, Int64.le_iff_toInt_le, hmax, hmin] at hn
    simpa [Inst.Plain, Inst.falls, Inst.Encodable, Inst.regs, Inst.NumberEncodable] using
      ⟨hdst, hn⟩
  · simpa [Inst.Plain, Inst.falls, Inst.Encodable, Inst.regs, Inst.NumberEncodable] using hdst

theorem plain_slotAddress (off : Int32) : ∀ i ∈ slotAddress off, i.Plain := by
  have hmax : maxAddImm.toNat = 4095 := rfl
  rw [slotAddress]
  split
  · next hle =>
    have hnat : (UInt32.ofNat off.toInt.natAbs).toNat = off.toInt.natAbs :=
      UInt32.toNat_ofNat_of_lt' (by rw [hmax] at hle; show _ < 2 ^ 32; omega)
    rw [hmax] at hle
    simp only [List.mem_singleton, forall_eq]
    refine ⟨rfl, ?_, ?_⟩
    · simp [Inst.regs, slotScratch_encodable, fp_encodable]
    · rw [Inst.NumberEncodable, hnat]
      exact hle
  · intro i hi
    rcases List.mem_append.mp hi with hi | hi
    · exact plain_loadImm slotScratch_encodable _ i hi
    · rw [List.mem_singleton.mp hi]
      refine ⟨rfl, ?_, trivial⟩
      simp [Inst.regs, slotScratch_encodable, fp_encodable]

theorem plain_ldr {base : Reg} (hdst : dst.Encodable) (hbase : base.Encodable)
    (hoff : OffsetEncodable off) : (Inst.ldr dst base off).Plain := by
  refine ⟨rfl, ?_, hoff⟩
  simp [Inst.regs, hdst, hbase]

theorem plain_str {base : Reg} (hsrc : src.Encodable) (hbase : base.Encodable)
    (hoff : OffsetEncodable off) : (Inst.str src base off).Plain := by
  refine ⟨rfl, ?_, hoff⟩
  simp [Inst.regs, hsrc, hbase]

theorem offset_zero : OffsetEncodable 0 := by
  decide

/-- A slot in reach of the frame pointer has an unscaled offset. -/
theorem offset_direct (h : minDirectOffset ≤ off) (hoff : off.toInt ≤ 255) :
    OffsetEncodable off := by
  rw [Int32.le_iff_toInt_le] at h
  exact .inl ⟨h, hoff⟩

theorem plain_loadSlot (hdst : dst.Encodable) (hoff : off.toInt ≤ 255) :
    ∀ i ∈ loadSlot dst off, i.Plain := by
  rw [loadSlot]
  split
  · next hle =>
    rw [List.forall_mem_singleton]
    exact plain_ldr hdst fp_encodable (offset_direct hle hoff)
  · rw [List.forall_mem_append, List.forall_mem_singleton]
    exact ⟨plain_slotAddress off, plain_ldr hdst slotScratch_encodable offset_zero⟩

theorem plain_storeSlot (hsrc : src.Encodable) (hoff : off.toInt ≤ 255) :
    ∀ i ∈ storeSlot src off, i.Plain := by
  rw [storeSlot]
  split
  · next hle =>
    rw [List.forall_mem_singleton]
    exact plain_str hsrc fp_encodable (offset_direct hle hoff)
  · rw [List.forall_mem_append, List.forall_mem_singleton]
    exact ⟨plain_slotAddress off, plain_str hsrc slotScratch_encodable offset_zero⟩

theorem plain_moveReg (hdst : dst.Encodable) (hsrc : src.Encodable) :
    ∀ i ∈ moveReg dst src, i.Plain := by
  rw [moveReg]
  split
  · exact List.forall_mem_nil _
  · rw [List.forall_mem_singleton]
    refine ⟨rfl, ?_, trivial⟩
    simp [Inst.regs, hdst, hsrc]

theorem offset_spill (i : Fin 8) : OffsetEncodable (paramSpillOffset (.ofNat i.val)) := by
  revert i
  decide

theorem plain_saveParam (i : Fin 8) (hsrc : src.Encodable) : (saveParam i src).Plain :=
  plain_str hsrc fp_encodable (offset_spill i)

theorem plain_restoreParam (i : Fin 8) (hdst : dst.Encodable) : (restoreParam i dst).Plain :=
  plain_ldr hdst fp_encodable (offset_spill i)

theorem argReg_encodable (i : Fin 8) : (argReg i).Encodable :=
  encodable_of_mem (Reg.argReg_mem i) (by omega)

theorem Site.map_home_ok {α : Type} {f : Home → α} {a : α} (h : (s.home r).map f = .ok a) :
    ∃ home, s.layout.home? r = some home ∧ a = f home := by
  rw [Site.home] at h
  cases hhome : s.layout.home? r with
  | none =>
    rw [hhome] at h
    exact absurd h nofun
  | some home =>
    rw [hhome] at h
    cases h
    exact ⟨home, rfl, rfl⟩

section Fits
variable (fits : s.layout.Fits)
include fits

theorem slot_le {off : Int32} (h : s.layout.home? r = some (.slot off)) : off.toInt ≤ 255 := by
  have hoff := (Layout.slot_bounds fits h).2
  omega

theorem plain_load (hdst : dst.Encodable) (hcode : s.load dst r = .ok code) :
    ∀ i ∈ code, i.Plain := by
  obtain ⟨home, hhome, rfl⟩ := Site.map_home_ok hcode
  cases home with
  | slot off => exact plain_loadSlot hdst (slot_le fits hhome)
  | param index => exact plain_moveReg hdst (argReg_encodable index)

theorem plain_store (hsrc : src.Encodable) (hcode : s.store src r = .ok code) :
    ∀ i ∈ code, i.Plain := by
  obtain ⟨home, hhome, rfl⟩ := Site.map_home_ok hcode
  cases home with
  | slot off => exact plain_storeSlot hsrc (slot_le fits hhome)
  | param index => exact plain_moveReg (argReg_encodable index) hsrc

theorem plain_storeResult (hsrc : src.Encodable) (hcode : s.storeResult src r = .ok code) :
    ∀ i ∈ code, i.Plain := by
  obtain ⟨home, hhome, rfl⟩ := Site.map_home_ok hcode
  cases home with
  | slot off => exact plain_storeSlot hsrc (slot_le fits hhome)
  | param index =>
    rw [List.forall_mem_singleton]
    exact plain_saveParam index hsrc

theorem plain_loadArg (hdst : dst.Encodable) (hcode : s.loadArg dst r = .ok code) :
    ∀ i ∈ code, i.Plain := by
  obtain ⟨home, hhome, rfl⟩ := Site.map_home_ok hcode
  cases home with
  | slot off => exact plain_loadSlot hdst (slot_le fits hhome)
  | param index =>
    rw [List.forall_mem_singleton]
    exact plain_restoreParam index hdst

theorem plain_fetches {operand : Operand} (hdst : dst.Encodable)
    (hcode : s.Fetches dst operand code) : ∀ i ∈ code, i.Plain := by
  cases hcode with
  | reg hload => exact plain_load fits hdst hload
  | imm n => exact plain_loadImm hdst n

theorem plain_loadArgs {args : List VReg} {index : ℕ} (hlength : index + args.length ≤ 8)
    (hcode : s.loadArgs index args = .ok code) : ∀ i ∈ code, i.Plain := by
  induction args generalizing index code with
  | nil =>
    cases hcode
    exact List.forall_mem_nil _
  | cons arg args ih =>
    rw [List.length_cons] at hlength
    obtain ⟨first, rest, hfirst, hrest, rfl⟩ := Site.loadArgs_ok hcode
    rw [List.forall_mem_append]
    refine ⟨plain_loadArg fits ?_ hfirst, ih (by omega) hrest⟩
    rw [Reg.Encodable, UInt8.toNat_ofNat_of_lt' (by show index < 256; omega)]
    omega

end Fits

theorem plain_saveParams : ∀ i ∈ s.saveParams, i.Plain := by
  rw [Site.saveParams, List.forall_mem_map]
  exact fun index _ => plain_saveParam index (argReg_encodable index)

theorem plain_restoreParams : ∀ i ∈ s.restoreParams, i.Plain := by
  rw [Site.restoreParams, List.forall_mem_map]
  exact fun index _ => plain_restoreParam index (argReg_encodable index)

theorem plain_symbolAddress (hdst : dst.Encodable) (symbol : String) :
    ∀ i ∈ symbolAddress dst symbol, i.Plain := by
  simp [symbolAddress, Inst.Plain, Inst.falls, Inst.Encodable, Inst.regs, Inst.NumberEncodable,
    hdst]

theorem homeAreaSize_le {args : ℕ} (h : args ≤ 8) : (homeAreaSize args).toNat ≤ 64 := by
  revert args
  decide

theorem plain_subSp {size : UInt32} (h : size.toNat ≤ 4095) : (Inst.subImm .sp .sp size).Plain :=
  ⟨rfl, by simp [Inst.regs, Reg.Encodable], h⟩

theorem plain_addSp {size : UInt32} (h : size.toNat ≤ 4095) : (Inst.addImm .sp .sp size).Plain :=
  ⟨rfl, by simp [Inst.regs, Reg.Encodable], h⟩

theorem plain_callFunction (fits : s.layout.Fits) {target : Option VReg} {function : String}
    {args : List VReg} (h : s.callFunction target function args = .ok code) :
    ∀ i ∈ code, i.Plain := by
  obtain ⟨arguments, result, hlength, harguments, hresult, rfl⟩ := s.callFunction_ok h
  have hhome := homeAreaSize_le hlength
  have hstored : ∀ i ∈ result, i.Plain := by
    cases target with
    | none =>
      cases hresult
      exact List.forall_mem_nil _
    | some r => exact plain_storeResult fits (argReg_encodable 0) hresult
  simp only [List.forall_mem_append, List.forall_mem_singleton]
  refine ⟨⟨⟨⟨⟨⟨plain_saveParams, ?_⟩, plain_loadArgs fits (by omega) harguments⟩,
    ⟨rfl, List.forall_mem_nil _, trivial⟩⟩, ?_⟩, hstored⟩, plain_restoreParams⟩
  · split
    · exact List.forall_mem_singleton.mpr (plain_subSp (by omega))
    · exact List.forall_mem_nil _
  · split
    · exact List.forall_mem_singleton.mpr (plain_addSp (by omega))
    · exact List.forall_mem_nil _

end Parts

/-! ## Instructions -/

/-- A load or a store at an offset, between registers that can be encoded. -/
def A64.Inst.AccessAt (offset : Int32) (i : Inst) : Prop :=
  ∃ rt rn : Reg, rt.Encodable ∧ rn.Encodable ∧ (i = .ldr rt rn offset ∨ i = .str rt rn offset)

theorem A64.Inst.AccessAt.encodable_iff {offset : Int32} {i : Inst} (h : i.AccessAt offset) :
    i.Encodable ↔ OffsetEncodable offset := by
  obtain ⟨rt, rn, ht, hn, rfl | rfl⟩ := h
  · exact ⟨fun h => h.2, fun h => (plain_ldr ht hn h).2⟩
  · exact ⟨fun h => h.2, fun h => (plain_str ht hn h).2⟩

theorem A64.Inst.AccessAt.falls {offset : Int32} {i : Inst} (h : i.AccessAt offset) :
    i.falls = true := by
  obtain ⟨rt, rn, -, -, rfl | rfl⟩ := h <;> rfl

section Emits
variable {s : Site} {inst : Instruction} {code : List Inst}

theorem temporary_encodable {r : Reg} (h : r.Temporary) : r.Encodable :=
  encodable_of_mem h (by omega)

theorem plain_immediateInst {op : BinaryOp} {a : Reg} {rhs : Operand} {i : Inst}
    (ha : a.Encodable) (h : immediateInst? op a rhs = some i) : i.Plain := by
  unfold immediateInst? at h
  cases rhs with
  | reg r => exact absurd h nofun
  | imm n =>
    dsimp only at h
    split at h
    · next hn =>
      have hmax : (4096 : Int64).toInt = 4096 := rfl
      rw [Int64.le_iff_toInt_le, Int64.lt_iff_toInt_lt, hmax] at hn
      have hle : (UInt32.ofNat n.toInt.toNat).toNat ≤ 4095 := by
        rw [UInt32.toNat_ofNat_of_lt' (by show _ < 2 ^ 32; omega)]
        omega
      cases op with
      | add | sub =>
        cases h
        exact ⟨rfl, by simp [Inst.regs, ha], hle⟩
      | _ => exact absurd h nofun
    · exact absurd h nofun

theorem plain_binaryInst {a b : Reg} (ha : a.Encodable) (hb : b.Encodable) (op : BinaryOp) :
    (binaryInst op a b).Plain := by
  cases op <;> exact ⟨rfl, by simp [binaryInst, Inst.regs, ha, hb], trivial⟩

theorem plain_unaryInst {a : Reg} (ha : a.Encodable) (op : UnaryOp) : (unaryInst op a).Plain := by
  cases op <;> exact ⟨rfl, by simp [unaryInst, Inst.regs, ha], trivial⟩

/-- What lowering emits is plain, steers where the instruction does, or accesses its field. -/
theorem plain_or_of_emits (fits : s.layout.Fits) (h : s.Emits inst code) :
    ∀ i ∈ code, i.Plain ∨ inst.steers = true ∧ i.Encodable ∨
      ∃ index, inst.index? = some index ∧ i.AccessAt (fieldOffset index) := by
  have plain : ∀ {is : List Inst}, (∀ i ∈ is, i.Plain) → ∀ i ∈ is,
      i.Plain ∨ inst.steers = true ∧ i.Encodable ∨
        ∃ index, inst.index? = some index ∧ i.AccessAt (fieldOffset index) :=
    fun his i hi => .inl (his i hi)
  cases h with
  | mov ha hcode hresult =>
    have ha' := temporary_encodable ha
    exact plain (List.forall_mem_append.mpr
      ⟨plain_fetches fits ha' hcode, plain_store fits ha' hresult⟩)
  | binaryImm ha hcode hi hresult =>
    have ha' := temporary_encodable ha
    simp only [List.forall_mem_append, List.forall_mem_singleton]
    exact ⟨⟨plain (plain_load fits ha' hcode), .inl (plain_immediateInst ha' hi)⟩,
      plain (plain_store fits ha' hresult)⟩
  | binary ha hb hne hcode hrcode hresult =>
    have ha' := temporary_encodable ha
    have hb' := temporary_encodable hb
    simp only [List.forall_mem_append, List.forall_mem_singleton]
    exact ⟨⟨plain (plain_load fits ha' hcode), plain (plain_fetches fits hb' hrcode),
      .inl (plain_binaryInst ha' hb' _)⟩, plain (plain_store fits ha' hresult)⟩
  | unary ha hcode hresult =>
    have ha' := temporary_encodable ha
    simp only [List.forall_mem_append, List.forall_mem_singleton]
    exact ⟨⟨plain (plain_load fits ha' hcode), .inl (plain_unaryInst ha' _)⟩,
      plain (plain_store fits ha' hresult)⟩
  | compare ha hb hne hcode hrcode hresult =>
    have ha' := temporary_encodable ha
    have hb' := temporary_encodable hb
    simp only [List.forall_mem_append, List.forall_mem_cons]
    exact ⟨⟨⟨plain (plain_load fits ha' hcode), plain (plain_fetches fits hb' hrcode)⟩,
      .inl ⟨rfl, by simp [Inst.regs, ha', hb'], trivial⟩,
      .inl ⟨rfl, by simp [Inst.regs, ha'], trivial⟩, List.forall_mem_nil _⟩,
      plain (plain_store fits ha' hresult)⟩
  | loadGlobal ha hresult =>
    have ha' := temporary_encodable ha
    simp only [List.forall_mem_append, List.forall_mem_singleton]
    exact ⟨⟨plain (plain_symbolAddress ha' _), .inl (plain_ldr ha' ha' offset_zero)⟩,
      plain (plain_store fits ha' hresult)⟩
  | storeGlobal ha hb hne hcode =>
    have ha' := temporary_encodable ha
    have hb' := temporary_encodable hb
    simp only [List.forall_mem_append, List.forall_mem_singleton]
    exact ⟨⟨plain (plain_load fits ha' hcode), plain (plain_symbolAddress hb' _)⟩,
      .inl (plain_str ha' hb' offset_zero)⟩
  | @loadField _ _ _ index a _ _ ha hcode hresult =>
    have ha' := temporary_encodable ha
    simp only [List.forall_mem_append, List.forall_mem_singleton]
    exact ⟨⟨plain (plain_load fits ha' hcode),
      .inr (.inr ⟨index, rfl, a, a, ha', ha', .inl rfl⟩)⟩, plain (plain_store fits ha' hresult)⟩
  | @storeField _ _ _ index a b _ _ ha hb hne hcode hbcode =>
    have ha' := temporary_encodable ha
    have hb' := temporary_encodable hb
    simp only [List.forall_mem_append, List.forall_mem_singleton]
    exact ⟨⟨plain (plain_load fits ha' hcode), plain (plain_load fits hb' hbcode)⟩,
      .inr (.inr ⟨index, rfl, a, b, ha', hb', .inr rfl⟩)⟩
  | new hresult =>
    simp only [List.forall_mem_append, List.forall_mem_singleton]
    exact ⟨⟨⟨⟨plain plain_saveParams, plain (plain_loadImm (argReg_encodable 0) _)⟩,
      .inl ⟨rfl, List.forall_mem_nil _, trivial⟩⟩,
      plain (plain_storeResult fits (argReg_encodable 0) hresult)⟩, plain plain_restoreParams⟩
  | delete hcode =>
    simp only [List.forall_mem_append, List.forall_mem_singleton]
    exact ⟨⟨⟨plain plain_saveParams, plain (plain_load fits (argReg_encodable 0) hcode)⟩,
      .inl ⟨rfl, List.forall_mem_nil _, trivial⟩⟩, plain plain_restoreParams⟩
  | print hcode =>
    simp only [List.forall_mem_append, List.forall_mem_singleton]
    exact ⟨⟨⟨⟨plain plain_saveParams, plain (plain_load fits (argReg_encodable 1) hcode)⟩,
      plain (plain_symbolAddress (argReg_encodable 0) _)⟩,
      .inl ⟨rfl, List.forall_mem_nil _, trivial⟩⟩, plain plain_restoreParams⟩
  | call hcode => exact plain (plain_callFunction fits hcode)
  | branch name =>
    exact List.forall_mem_singleton.mpr (.inr (.inl ⟨rfl, List.forall_mem_nil _, trivial⟩))
  | @condBranch _ onTrue _ a _ ha hcode =>
    have ha' := temporary_encodable ha
    simp only [List.forall_mem_append, List.forall_mem_singleton]
    refine ⟨plain (plain_load fits ha' hcode), .inr (.inl ⟨rfl, ?_⟩)⟩
    cases onTrue <;> exact ⟨by simp [Inst.regs, ha'], trivial⟩
  | ret =>
    exact List.forall_mem_singleton.mpr (.inr (.inl ⟨rfl, List.forall_mem_nil _, trivial⟩))
  | retValue hcode =>
    simp only [List.forall_mem_append, List.forall_mem_singleton]
    exact ⟨plain (plain_load fits (argReg_encodable 0) hcode),
      .inr (.inl ⟨rfl, List.forall_mem_nil _, trivial⟩)⟩

theorem falls_of_emits (fits : s.layout.Fits) (h : s.Emits inst code)
    (hsteers : inst.steers = false) : ∀ i ∈ code, i.falls = true := by
  intro i hi
  rcases plain_or_of_emits fits h i hi with hplain | ⟨hsteers', -⟩ | ⟨index, -, haccess⟩
  · exact hplain.1
  · rw [hsteers] at hsteers'
    exact absurd hsteers' Bool.noConfusion
  · exact haccess.falls

/-- The instructions of a register instruction can be encoded if the offset of its field can. -/
theorem encodable_of_emits (fits : s.layout.Fits) (h : s.Emits inst code)
    (hindex : ∀ index, inst.index? = some index → OffsetEncodable (fieldOffset index)) :
    ∀ i ∈ code, i.Encodable := by
  intro i hi
  rcases plain_or_of_emits fits h i hi with hplain | ⟨-, hencodable⟩ | ⟨index, hget, haccess⟩
  · exact hplain.2
  · exact hencodable
  · exact haccess.encodable_iff.mpr (hindex index hget)

theorem access_of_emits (h : s.Emits inst code) {index : UInt64} (hindex : inst.index? = some index) :
    ∃ i ∈ code, i.AccessAt (fieldOffset index) := by
  cases h with
  | @loadField _ _ _ _ a _ _ ha hcode hresult =>
    cases hindex
    have ha' := temporary_encodable ha
    exact ⟨.ldr a a (fieldOffset index), by simp, a, a, ha', ha', .inl rfl⟩
  | @storeField _ _ _ _ a b _ _ ha hb hne hcode hbcode =>
    cases hindex
    have ha' := temporary_encodable ha
    have hb' := temporary_encodable hb
    exact ⟨.str a b (fieldOffset index), by simp, a, b, ha', hb', .inr rfl⟩
  | _ => exact absurd hindex nofun

end Emits

/-! ## Fields -/

theorem toInt_fieldOffset {index : UInt64} (h : index.toNat < 2 ^ 28) :
    (fieldOffset index).toInt = 8 * index.toNat := by
  have hlow : (index.toUInt32.toInt32).toInt = index.toNat := by
    rw [← Int32.toInt_toBitVec, BitVec.toInt_eq_toNat_of_lt]
    · simp
      omega
    · simp
      omega
  rw [fieldOffset, Int32.toInt_mul, hlow]
  simp only [Int.bmod_def]
  simp
  omega

/-- The field at index 4096 is the first one out of reach. -/
theorem offsetEncodable_fieldOffset {index : UInt64} (h : index.toNat < 2 ^ 28) :
    OffsetEncodable (fieldOffset index) ↔ index.toNat < 4096 := by
  rw [OffsetEncodable, toInt_fieldOffset h]
  omega

/-! ## Fragments -/

theorem encodable_prologue (f : Frame) : ∀ i ∈ f.prologue, i.Encodable := by
  rw [Frame.prologue, List.forall_mem_append, List.forall_mem_map]
  refine ⟨by decide, fun step hstep => ?_⟩
  have hle := Frame.le_of_mem_spSteps hstep
  exact (plain_subSp (by omega)).2

theorem encodable_epilogue (f : Frame) : ∀ i ∈ f.epilogue, i.Encodable := by
  rw [Frame.epilogue, List.forall_mem_append, List.forall_mem_map]
  refine ⟨fun step hstep => ?_, by decide⟩
  have hle := Frame.le_of_mem_spSteps hstep
  exact (plain_addSp (by omega)).2

theorem encodable_of_prints {s : Site} (fits : s.layout.Fits) {inst : Instruction}
    {lines : List Line} (h : s.Prints inst lines) :
    (∀ i, .inst i ∈ lines → i.Encodable) ↔
      ∀ index, inst.index? = some index → OffsetEncodable (fieldOffset index) := by
  cases h with
  | label name => simp [Instruction.index?]
  | code hemits =>
    constructor
    · intro hall index hindex
      obtain ⟨i, hi, haccess⟩ := access_of_emits hemits hindex
      exact haccess.encodable_iff.mp (hall i (List.mem_map_of_mem hi))
    · intro hindex i hi
      obtain ⟨j, hj, heq⟩ := List.mem_map.mp hi
      cases heq
      exact encodable_of_emits fits hemits hindex i hj

theorem encodable_of_lowers {s : Site} (fits : s.layout.Fits) {body : List Instruction}
    {lines : List Line} (h : s.Lowers body lines) :
    (∀ i, .inst i ∈ lines → i.Encodable) ↔
      ∀ inst ∈ body, ∀ index, inst.index? = some index → OffsetEncodable (fieldOffset index) := by
  induction h with
  | nil => simp
  | @cons inst body lines rest hinst hbody ih =>
    rw [List.forall_mem_cons, ← ih, ← encodable_of_prints fits hinst, ← forall_and]
    refine forall_congr' fun i => ?_
    simp only [List.mem_append, s.inst_notMem_annotationLines inst i, false_or]
    exact or_imp

/-- A lowered fragment can be encoded, whatever its frame, its parameters and its immediates,
exactly if the offsets of the fields that it accesses can. -/
theorem lowerFragment_encodable_iff {settings : Settings} {globals : List String}
    {frag : Fragment} {code : List Line} {after : Pool}
    (h : lowerFragment settings globals frag .temporaries = (.ok code, after)) :
    (∀ i, .inst i ∈ code → i.Encodable) ↔
      ∀ inst ∈ frag.body, ∀ index, inst.index? = some index →
        OffsetEncodable (fieldOffset index) := by
  obtain ⟨layout, lines, hlayout, hlowers, rfl, -⟩ := lowerFragment_ok Pool.temporaries_free h
  rw [← encodable_of_lowers (Layout.fits_of_ofFragment hlayout) hlowers]
  constructor
  · intro hall i hi
    exact hall i (List.mem_append_left _ (List.mem_append_right _ hi))
  · intro hlines i hi
    rcases List.mem_append.mp hi with hi | hi
    · rcases List.mem_append.mp hi with hi | hi
      · have hmem : i ∈ layout.frame.prologue := by simpa [heading] using hi
        exact encodable_prologue _ i hmem
      · exact hlines i hi
    · have hmem : i ∈ layout.frame.epilogue := by simpa [ending] using hi
      exact encodable_epilogue _ i hmem

/-- A fragment that reads the field at this index of a new object. -/
def fieldReader (index : UInt64) : Fragment :=
  ⟨"f", [], [.new ⟨0⟩ "Node" 5000, .loadField ⟨1⟩ ⟨0⟩ "a" index]⟩

theorem lowerFragment_encodable_near_field :
    ∃ code after, lowerFragment .default [] (fieldReader 4095) .temporaries = (.ok code, after) ∧
      ∀ i, .inst i ∈ code → i.Encodable := by
  have hcode : ∃ code after,
      lowerFragment .default [] (fieldReader 4095) .temporaries = (.ok code, after) := ⟨_, _, rfl⟩
  obtain ⟨code, after, h⟩ := hcode
  refine ⟨code, after, h, (lowerFragment_encodable_iff h).mpr fun inst hinst index hindex => ?_⟩
  rcases List.mem_pair.mp hinst with rfl | rfl
  · exact absurd hindex nofun
  · cases hindex
    decide

theorem not_encodable_far_field :
    ∃ code after, lowerFragment .default [] (fieldReader 4096) .temporaries = (.ok code, after) ∧
      ¬ ∀ i, .inst i ∈ code → i.Encodable := by
  refine ⟨_, _, rfl, fun hall => ?_⟩
  have hfar := hall (.ldr (.x 9) (.x 9) 32768) (by decide)
  revert hfar
  decide

end A64Lowering
