import Mathlib
import A64Lowering.Proofs.Stack.Walk

/-! # The forms of emitted instructions

* `Inst.destination?`: the register that an instruction computes.
* `Inst.reference?`: the label that it jumps to, or the symbol whose address it takes.
* `Site.Refers`: the references of an instruction.
* `Site.Form`: the machine instructions that an instruction may be lowered to, by what they write
  and refer to. `forms_of_emits`: there are no others.
* `Site.Builds`, `Site.Assembles`: how code is put together, with the registers that an instruction
  may compute values in and the accesses of slots out of reach. `assembles_of_emits`. -/
namespace A64Lowering
set_option autoImplicit false

open A64 Ir

/-! ## Results and references -/

namespace A64

/-- The register that an instruction computes, apart from the frame record and the link register. -/
def Inst.destination? : Inst → Option Reg
  | .add rd _ _ | .sub rd _ _ | .mul rd _ _ | .sdiv rd _ _ | .neg rd _ | .addImm rd _ _
  | .subImm rd _ _ | .and rd _ _ | .orr rd _ _ | .eorImm rd _ _ | .cset rd _ | .mov rd _
  | .movImm rd _ | .ldrLiteral rd _ | .ldr rd _ _ | .adrp rd _ | .addLo12 rd _ _ => some rd
  | .cmp _ _ | .str _ _ _ | .stp _ _ _ | .ldp _ _ _ | .b _ | .cbz _ _ | .cbnz _ _ | .bl _
  | .ret => none

/-- What an instruction needs to find in the text: a place to jump to, or a symbol. -/
inductive Reference where
  | jump (label : String)
  | address (symbol : String)
  deriving DecidableEq, Repr

/-- The reference that an instruction makes. A call goes to a routine of any file. -/
def Inst.reference? : Inst → Option Reference
  | .b label | .cbz _ label | .cbnz _ label => some (.jump label)
  | .adrp _ symbol | .addLo12 _ _ symbol => some (.address symbol)
  | _ => none

/-- The registers that values are worked on in: arguments, results and temporaries. -/
def Reg.working : Set Reg := among 0 7 ∪ among 9 15

end A64

/-- The symbol whose address an instruction takes. -/
def Ir.Instruction.symbol? : Instruction → Option String
  | .loadGlobal _ name | .storeGlobal _ name => some name
  | .print _ => some intFormatLabel
  | _ => none

/-! ## Forms -/

/-- The references of an instruction: a symbol that it names, and where it may branch to. -/
def Site.Refers (s : Site) (inst : Instruction) : Reference → Prop
  | .jump label =>
    inst.target = some label ∨ (∃ value, inst = .ret value) ∧ label = s.returnLabel
  | .address symbol => inst.symbol? = some symbol

/-- The machine instructions that the code of an instruction consists of. -/
inductive Site.Form (s : Site) (inst : Instruction) : Inst → Prop where
  | compute {i : Inst} {rd : Reg} (hi : i.destination? = some rd)
      (hrd : rd ∈ Reg.working ∨ rd = slotScratch) (href : i.reference? = none) : Form s inst i
  | compare (rn rm : Reg) : Form s inst (.cmp rn rm)
  | store (rt rn : Reg) (offset : Int32) : Form s inst (.str rt rn offset)
  | address {i : Inst} {rd : Reg} {symbol : String} (hi : i.destination? = some rd)
      (hrd : rd ∈ Reg.working) (href : i.reference? = some (.address symbol))
      (h : s.Refers inst (.address symbol)) : Form s inst i
  | jump {i : Inst} {label : String} (href : i.reference? = some (.jump label))
      (h : s.Refers inst (.jump label)) : Form s inst i
  | call {routine : String} {n : ℕ} (h : inst.callee s.settings.runtime = some (routine, n)) :
      Form s inst (.bl routine)
  | reserve {routine : String} {n : ℕ} (h : inst.callee s.settings.runtime = some (routine, n))
      (hn : n ≤ 8) : Form s inst (.subImm .sp .sp (homeAreaSize n))
  | giveBack {routine : String} {n : ℕ} (h : inst.callee s.settings.runtime = some (routine, n))
      (hn : n ≤ 8) : Form s inst (.addImm .sp .sp (homeAreaSize n))

/-- All machine instructions of the code have such a form. -/
abbrev Site.Formed (s : Site) (inst : Instruction) (code : List Inst) : Prop :=
  ∀ i ∈ code, s.Form inst i

/-- The registers that an instruction may compute values in. Argument registers hold parameters, so
if the function goes on without a call, only the home of the target is one of them. -/
def Site.Permits (s : Site) (inst : Instruction) (rd : Reg) : Prop :=
  rd.Temporary ∨ ∃ k, rd = argReg k ∧ (inst.isCall = true ∨ (∃ value, inst = .ret value) ∨
    ∃ r, inst.target? = some r ∧ s.layout.home? r = some (.param k))

/-- Code that is put together for an instruction and leaves the stack pointer where it is. A slot out
of the reach of an offset is accessed as soon as its address is in the slot scratch register. -/
inductive Site.Builds (s : Site) (inst : Instruction) : List Inst → Prop where
  | nil : Builds s inst []
  | append {code code' : List Inst} (h : Builds s inst code) (h' : Builds s inst code') :
      Builds s inst (code ++ code')
  | single {i : Inst} (h : s.Form inst i)
      (hrd : ∀ rd, i.destination? = some rd → s.Permits inst rd) : Builds s inst [i]
  | loadFar {dst : Reg} {r : VReg} {offset : Int32} (hdst : s.Permits inst dst)
      (hhome : s.layout.home? r = some (.slot offset)) (hoffset : offset < minDirectOffset) :
      Builds s inst (slotAddress offset ++ [.ldr dst slotScratch 0])
  | storeFar (src : Reg) {r : VReg} {offset : Int32}
      (hhome : s.layout.home? r = some (.slot offset)) (hoffset : offset < minDirectOffset) :
      Builds s inst (slotAddress offset ++ [.str src slotScratch 0])

/-- The whole code of an instruction. A call with arguments makes room for them before the `bl` and
gives it back right after. -/
inductive Site.Assembles (s : Site) : Instruction → List Inst → Prop where
  | plain {inst : Instruction} {code : List Inst} (h : s.Builds inst code) : Assembles s inst code
  | call {target : Option VReg} {function : String} {args : List VReg}
      {before between after : List Inst} (hlength : args.length ≤ 8)
      (hbefore : s.Builds (.call target function args) before)
      (hbetween : s.Builds (.call target function args) between)
      (hafter : s.Builds (.call target function args) after) :
      Assembles s (.call target function args)
        (before ++ .subImm .sp .sp (homeAreaSize args.length) :: between
          ++ .bl function :: .addImm .sp .sp (homeAreaSize args.length) :: after)

section Forms
variable {s : Site} {inst : Instruction} {dst src : Reg} {r : VReg} {i : Inst}
  {code code' : List Inst}

/-! ## Parts of code -/

theorem working_of_temporary (h : dst.Temporary) : dst ∈ Reg.working := .inr h

theorem working_argReg (i : Fin 8) : argReg i ∈ Reg.working := .inl (Reg.argReg_mem i)

theorem working_of_permits (h : s.Permits inst dst) : dst ∈ Reg.working := by
  rcases h with h | ⟨k, rfl, -⟩
  · exact working_of_temporary h
  · exact working_argReg k

theorem permits_argReg (h : inst.isCall = true) (k : Fin 8) : s.Permits inst (argReg k) :=
  .inr ⟨k, rfl, .inl h⟩

theorem permits_home {k : Fin 8} (htarget : inst.target? = some r)
    (hhome : s.layout.home? r = some (.param k)) : s.Permits inst (argReg k) :=
  .inr ⟨k, rfl, .inr (.inr ⟨r, htarget, hhome⟩)⟩

theorem builds_compute (hi : i.destination? = some dst) (hdst : s.Permits inst dst)
    (href : i.reference? = none) : s.Builds inst [i] := by
  refine .single (.compute hi (.inl (working_of_permits hdst)) href) fun rd hrd => ?_
  rw [hi] at hrd
  cases hrd
  exact hdst

theorem builds_effect (hi : i.destination? = none) (h : s.Form inst i) : s.Builds inst [i] := by
  refine .single h fun rd hrd => ?_
  rw [hi] at hrd
  cases hrd

theorem builds_map {α : Type} {f : α → Inst} (h : ∀ a, s.Builds inst [f a]) (as : List α) :
    s.Builds inst (as.map f) := by
  induction as with
  | nil => exact .nil
  | cons a as ih => exact (h a).append ih

theorem builds_loadImm (hdst : s.Permits inst dst) (n : Int64) :
    s.Builds inst (loadImm dst n) := by
  rw [loadImm]
  split <;> exact builds_compute rfl hdst rfl

theorem builds_loadSlot (hdst : s.Permits inst dst) {offset : Int32}
    (hhome : s.layout.home? r = some (.slot offset)) : s.Builds inst (loadSlot dst offset) := by
  rw [loadSlot]
  split
  · exact builds_compute rfl hdst rfl
  · next hfar => exact .loadFar hdst hhome (Int32.not_le.mp hfar)

theorem builds_storeSlot (src : Reg) {offset : Int32}
    (hhome : s.layout.home? r = some (.slot offset)) : s.Builds inst (storeSlot src offset) := by
  rw [storeSlot]
  split
  · exact builds_effect rfl (.store _ _ _)
  · next hfar => exact .storeFar src hhome (Int32.not_le.mp hfar)

theorem builds_moveReg (hdst : s.Permits inst dst) (src : Reg) :
    s.Builds inst (moveReg dst src) := by
  rw [moveReg]
  split
  · exact .nil
  · exact builds_compute rfl hdst rfl

theorem builds_symbolAddress (hdst : s.Permits inst dst) {symbol : String}
    (h : inst.symbol? = some symbol) : s.Builds inst (symbolAddress dst symbol) := by
  have haddress : ∀ i : Inst, i.destination? = some dst →
      i.reference? = some (.address symbol) → s.Builds inst [i] := by
    intro i hi href
    refine .single (.address hi (working_of_permits hdst) href h) fun rd hrd => ?_
    rw [hi] at hrd
    cases hrd
    exact hdst
  exact (haddress (.adrp dst symbol) rfl rfl).append (haddress (.addLo12 dst dst symbol) rfl rfl)

theorem builds_load (hdst : s.Permits inst dst) (h : s.load dst r = .ok code) :
    s.Builds inst code := by
  obtain ⟨home, hhome, rfl⟩ := Site.map_home_ok h
  cases home with
  | slot offset => exact builds_loadSlot hdst hhome
  | param i => exact builds_moveReg hdst _

theorem builds_store (htarget : inst.target? = some r) (h : s.store src r = .ok code) :
    s.Builds inst code := by
  obtain ⟨home, hhome, rfl⟩ := Site.map_home_ok h
  cases home with
  | slot offset => exact builds_storeSlot src hhome
  | param i => exact builds_moveReg (permits_home htarget hhome) src

theorem builds_storeResult (h : s.storeResult src r = .ok code) : s.Builds inst code := by
  obtain ⟨home, hhome, rfl⟩ := Site.map_home_ok h
  cases home with
  | slot offset => exact builds_storeSlot src hhome
  | param i => exact builds_effect rfl (.store _ _ _)

theorem builds_storeTarget {target : Option VReg} (h : s.storeTarget target = .ok code) :
    s.Builds inst code := by
  cases target with
  | none =>
    cases h
    exact .nil
  | some r => exact builds_storeResult h

theorem builds_loadArg (hdst : s.Permits inst dst) (h : s.loadArg dst r = .ok code) :
    s.Builds inst code := by
  obtain ⟨home, hhome, rfl⟩ := Site.map_home_ok h
  cases home with
  | slot offset => exact builds_loadSlot hdst hhome
  | param i => exact builds_compute rfl hdst rfl

theorem builds_loadArgs (hcall : inst.isCall = true) {args : List VReg} {index : ℕ}
    (hlength : index + args.length ≤ 8) (h : s.loadArgs index args = .ok code) :
    s.Builds inst code := by
  induction args generalizing index code with
  | nil =>
    cases h
    exact .nil
  | cons arg args ih =>
    rw [List.length_cons] at hlength
    obtain ⟨first, rest, hfirst, hrest, rfl⟩ := Site.loadArgs_ok h
    refine (builds_loadArg ?_ hfirst).append (ih (by omega) hrest)
    exact permits_argReg hcall ⟨index, by omega⟩

theorem builds_fetches {operand : Operand} (hdst : s.Permits inst dst)
    (h : s.Fetches dst operand code) : s.Builds inst code := by
  cases h with
  | reg hload => exact builds_load hdst hload
  | imm n => exact builds_loadImm hdst n

theorem builds_saveParams : s.Builds inst s.saveParams :=
  builds_map (fun _ => builds_effect rfl (.store _ _ _)) _

theorem builds_restoreParams (hcall : inst.isCall = true) : s.Builds inst s.restoreParams :=
  builds_map (fun i => builds_compute rfl (permits_argReg hcall i) rfl) _

theorem builds_call {routine : String} {n : ℕ}
    (h : inst.callee s.settings.runtime = some (routine, n)) : s.Builds inst [.bl routine] :=
  builds_effect rfl (.call h)

theorem assembles_callFunction {target : Option VReg} {function : String} {args : List VReg}
    (h : s.callFunction target function args = .ok code) :
    s.Assembles (.call target function args) code := by
  obtain ⟨arguments, result, hlength, harguments, hresult, rfl⟩ := s.callFunction_ok h
  have hbetween : s.Builds (.call target function args) arguments :=
    builds_loadArgs rfl (by omega) harguments
  have hafter : s.Builds (.call target function args) (result ++ s.restoreParams) :=
    (builds_storeTarget hresult).append (builds_restoreParams rfl)
  by_cases hroom : 0 < homeAreaSize args.length
  · have hassembles := Site.Assembles.call hlength builds_saveParams hbetween hafter
    simpa only [if_pos hroom, List.append_assoc, List.cons_append, List.nil_append] using hassembles
  · rw [if_neg hroom, if_neg hroom, List.append_nil, List.append_nil, List.append_assoc]
    exact .plain (((builds_saveParams.append hbetween).append (builds_call rfl)).append hafter)

theorem builds_immediateInst {op : BinaryOp} {a : Reg} {rhs : Operand} (ha : s.Permits inst a)
    (h : immediateInst? op a rhs = some i) : s.Builds inst [i] := by
  unfold immediateInst? at h
  cases rhs with
  | reg r => exact absurd h nofun
  | imm n =>
    dsimp only at h
    split at h
    · cases op with
      | add | sub =>
        cases h
        exact builds_compute rfl ha rfl
      | _ => exact absurd h nofun
    · exact absurd h nofun

/-- The code of an instruction is put together in this way. -/
theorem assembles_of_emits (h : s.Emits inst code) : s.Assembles inst code := by
  cases h with
  | mov ha hcode hresult =>
    exact .plain ((builds_fetches (.inl ha) hcode).append (builds_store rfl hresult))
  | binaryImm ha hcode hi hresult =>
    exact .plain (((builds_load (.inl ha) hcode).append (builds_immediateInst (.inl ha) hi)).append
      (builds_store rfl hresult))
  | @binary op _ _ _ _ _ _ _ _ ha hb _ hcode hrcode hresult =>
    refine .plain (((builds_load (.inl ha) hcode).append ((builds_fetches (.inl hb)
      hrcode).append ?_)).append (builds_store rfl hresult))
    cases op <;> exact builds_compute rfl (.inl ha) rfl
  | @unary op _ _ _ _ _ ha hcode hresult =>
    refine .plain (((builds_load (.inl ha) hcode).append ?_).append (builds_store rfl hresult))
    cases op <;> exact builds_compute rfl (.inl ha) rfl
  | compare ha hb _ hcode hrcode hresult =>
    refine .plain ((((builds_load (.inl ha) hcode).append (builds_fetches (.inl hb)
      hrcode)).append ?_).append (builds_store rfl hresult))
    exact (builds_effect rfl (.compare _ _)).append (builds_compute rfl (.inl ha) rfl)
  | loadGlobal ha hresult =>
    exact .plain (((builds_symbolAddress (.inl ha) rfl).append
      (builds_compute rfl (.inl ha) rfl)).append (builds_store rfl hresult))
  | storeGlobal ha hb _ hcode =>
    exact .plain (((builds_load (.inl ha) hcode).append
      (builds_symbolAddress (.inl hb) rfl)).append (builds_effect rfl (.store _ _ _)))
  | loadField ha hcode hresult =>
    exact .plain (((builds_load (.inl ha) hcode).append
      (builds_compute rfl (.inl ha) rfl)).append (builds_store rfl hresult))
  | storeField ha hb _ hcode hbcode =>
    exact .plain (((builds_load (.inl ha) hcode).append (builds_load (.inl hb) hbcode)).append
      (builds_effect rfl (.store _ _ _)))
  | new hresult =>
    exact .plain ((((builds_saveParams.append (builds_loadImm (permits_argReg rfl 0) _)).append
      (builds_call rfl)).append (builds_storeResult hresult)).append (builds_restoreParams rfl))
  | delete hcode =>
    exact .plain (((builds_saveParams.append (builds_load (permits_argReg rfl 0) hcode)).append
      (builds_call rfl)).append (builds_restoreParams rfl))
  | print hcode =>
    exact .plain ((((builds_saveParams.append (builds_load (permits_argReg rfl 1) hcode)).append
      (builds_symbolAddress (permits_argReg rfl 0) rfl)).append (builds_call rfl)).append
      (builds_restoreParams rfl))
  | call hcode => exact assembles_callFunction hcode
  | branch name => exact .plain (builds_effect rfl (.jump rfl (.inl rfl)))
  | @condBranch _ onTrue _ _ _ ha hcode =>
    refine .plain ((builds_load (.inl ha) hcode).append ?_)
    cases onTrue <;> exact builds_effect rfl (.jump rfl (.inl rfl))
  | ret => exact .plain (builds_effect rfl (.jump rfl (.inr ⟨⟨_, rfl⟩, rfl⟩)))
  | retValue hcode =>
    refine .plain ((builds_load (.inr ⟨0, rfl, .inr (.inl ⟨_, rfl⟩)⟩) hcode).append ?_)
    exact builds_effect rfl (.jump rfl (.inr ⟨⟨_, rfl⟩, rfl⟩))

/-! ## Forms of what is built -/

theorem formed_slotAddress (offset : Int32) : s.Formed inst (slotAddress offset) := by
  have hcompute : ∀ i : Inst, i.destination? = some slotScratch → i.reference? = none →
      s.Form inst i := fun i hi => .compute hi (.inr rfl)
  rw [slotAddress]
  split
  · exact List.forall_mem_singleton.mpr (hcompute _ rfl rfl)
  · refine List.forall_mem_append.mpr ⟨?_, List.forall_mem_singleton.mpr (hcompute _ rfl rfl)⟩
    rw [loadImm]
    split <;> exact List.forall_mem_singleton.mpr (hcompute _ rfl rfl)

theorem formed_of_builds (h : s.Builds inst code) : s.Formed inst code := by
  induction h with
  | nil => exact fun _ h => absurd h List.not_mem_nil
  | append _ _ ih ih' => exact List.forall_mem_append.mpr ⟨ih, ih'⟩
  | single h => exact List.forall_mem_singleton.mpr h
  | loadFar hdst =>
    refine List.forall_mem_append.mpr ⟨formed_slotAddress _, List.forall_mem_singleton.mpr ?_⟩
    exact .compute rfl (.inl (working_of_permits hdst)) rfl
  | storeFar src =>
    exact List.forall_mem_append.mpr
      ⟨formed_slotAddress _, List.forall_mem_singleton.mpr (.store _ _ _)⟩

/-- The code of an instruction consists of these forms. -/
theorem forms_of_emits (h : s.Emits inst code) : s.Formed inst code := by
  cases assembles_of_emits h with
  | plain hbuilds => exact formed_of_builds hbuilds
  | call hlength hbefore hbetween hafter =>
    have hreserve := List.forall_mem_cons.mpr
      ⟨.reserve rfl hlength, formed_of_builds hbetween⟩
    have hgiveBack := List.forall_mem_cons.mpr
      ⟨.giveBack rfl hlength, formed_of_builds hafter⟩
    have hcall := List.forall_mem_cons.mpr ⟨.call rfl, hgiveBack⟩
    exact List.forall_mem_append.mpr ⟨List.forall_mem_append.mpr ⟨formed_of_builds hbefore,
      hreserve⟩, hcall⟩

theorem inst_mem_code : Line.inst i ∈ code.map Line.inst ↔ i ∈ code :=
  List.mem_map_of_injective fun _ _ => Line.inst.inj

theorem inst_mem_heading {name : String} {f : Frame} :
    Line.inst i ∈ heading name f ↔ i ∈ f.prologue := by
  simp [heading]

theorem inst_mem_ending {f : Frame} : Line.inst i ∈ ending s f ↔ i ∈ f.epilogue := by
  simp [ending]

/-- The machine instructions of a body have the forms of its instructions. -/
theorem form_of_lowers {body : List Instruction} {lines : List Line} (h : s.Lowers body lines)
    (hi : .inst i ∈ lines) : ∃ inst ∈ body, s.Form inst i := by
  induction h with
  | nil => exact absurd hi List.not_mem_nil
  | @cons inst body lines rest hprints _ ih =>
    rcases List.mem_append.mp hi with hfirst | hrest
    · refine ⟨inst, List.mem_cons_self, ?_⟩
      rcases List.mem_append.mp hfirst with hannotation | hcode
      · exact absurd hannotation (s.inst_notMem_annotationLines inst i)
      · cases hprints with
        | label name => simp at hcode
        | code hemits => exact forms_of_emits hemits i (inst_mem_code.mp hcode)
    · obtain ⟨other, hother, hform⟩ := ih hrest
      exact ⟨other, List.mem_cons_of_mem _ hother, hform⟩

end Forms
end A64Lowering
