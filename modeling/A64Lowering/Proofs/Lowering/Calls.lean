import Mathlib
import A64Lowering.Proofs.Lowering.Writes

/-! # Parameters around calls

* `Inst.cells`, `Inst.stores`, `Inst.spills`: the cells of memory that an instruction accesses, and
  whether it stores to a place where parameters are saved.
* `Site.Accesses`: code accesses its frame at distances that are allowed, and through the slot
  scratch register only slots. `accesses_of_emits`.
* `Site.SavesAround`: the code of a call between saving and restoring parameters.
  `savesAround_of_emits`.
* `lower_saves_parameters`: the code of a call and of any other instruction. -/
namespace A64Lowering
set_option autoImplicit false

open A64 Ir

/-! ## Accesses of memory -/

namespace A64

/-- The cells that an instruction accesses: the register of the base, and the distance from it. -/
def Inst.cells : Inst → List (Reg × ℤ)
  | .ldr _ rn offset | .str _ rn offset => [(rn, offset.toInt)]
  | .stp _ _ rn | .ldp _ _ rn => [(rn, 0), (rn, 8)]
  | _ => []

def Inst.stores : Inst → Bool
  | .str .. | .stp .. => true
  | _ => false

/-- A store above the frame pointer, where parameters are saved. -/
def Inst.spills (i : Inst) : Bool :=
  i.stores && i.cells.any fun c => c.1 = .fp ∧ 0 < c.2

def Line.isCall : Line → Bool
  | .inst (.bl _) => true
  | _ => false

theorem cells_of_works {i : Inst} (h : i.Works) : i.cells = [] := by
  cases i with
  | ldr | str | stp | ldp => exact absurd h id
  | _ => rfl

end A64

/-- The access of a slot, from the frame pointer or else through the slot scratch register. -/
def slotAccess (access : Reg → Int32 → Inst) (off : Int32) : List Inst :=
  if minDirectOffset ≤ off then [access .fp off] else slotAddress off ++ [access slotScratch 0]

/-- After `before`, a slot lies at the distance `d` from the slot scratch register. -/
def Site.ReachesSlot (s : Site) (before : List Inst) (d : ℤ) : Prop :=
  ∃ r offset, s.layout.home? r = some (.slot offset) ∧ offset.toInt ≤ -8 ∧ ∀ env t,
    addr ((execs env before t).reg slotScratch) d
      = offsetAddr ((execs env before t).reg .fp) offset

/-- Code accesses its frame at distances from the frame pointer that are `near`, and through the
slot scratch register only slots. -/
def Site.Accesses (s : Site) (near : ℤ → Prop) (code : List Inst) : Prop :=
  ∀ before i after, code = before ++ i :: after → ∀ c ∈ i.cells,
    (c.1 = .fp → near c.2) ∧ (c.1 = slotScratch → s.ReachesSlot before c.2)

section Accesses
variable {s : Site} {near : ℤ → Prop} {i : Inst} {dst src : Reg} {r : VReg} {off : Int32}
  {code code' : List Inst}

theorem Site.ReachesSlot.append_left {before : List Inst} {d : ℤ} (h : s.ReachesSlot before d)
    (front : List Inst) : s.ReachesSlot (front ++ before) d := by
  obtain ⟨r, offset, hhome, hoffset, haddr⟩ := h
  refine ⟨r, offset, hhome, hoffset, fun env t => ?_⟩
  rw [execs_append]
  exact haddr env _

theorem Site.Accesses.extend (h : s.Accesses near code)
    (h' : ∀ mid i after, code' = mid ++ i :: after → ∀ c ∈ i.cells,
      (c.1 = .fp → near c.2) ∧ (c.1 = slotScratch → s.ReachesSlot (code ++ mid) c.2)) :
    s.Accesses near (code ++ code') := by
  intro before i after heq
  rcases List.append_eq_append_iff.mp heq with ⟨mid, rfl, hmid⟩ | ⟨mid, rfl, hmid⟩
  · exact h' mid i after hmid
  · cases mid with
    | nil => simpa using h' [] i after hmid.symm
    | cons j mid =>
      cases hmid
      exact h before i mid rfl

theorem Site.Accesses.append (h : s.Accesses near code) (h' : s.Accesses near code') :
    s.Accesses near (code ++ code') := by
  refine h.extend fun mid i after hcode c hc => ?_
  obtain ⟨hfp, hscratch⟩ := h' mid i after hcode c hc
  exact ⟨hfp, fun hbase => (hscratch hbase).append_left code⟩

theorem accesses_of_quiet (h : ∀ i ∈ code, ∀ c ∈ i.cells, c.1 ∈ Reg.among 0 15) :
    s.Accesses near code := by
  rintro before i after rfl c hc
  have hlow := h i (List.mem_append_right _ List.mem_cons_self) c hc
  refine ⟨fun hfp => ?_, fun hscratch => ?_⟩
  · exact absurd hfp (Reg.ne_of_mem_among hlow Reg.fp_mem (by omega))
  · exact absurd hscratch (Reg.ne_of_mem_among hlow Reg.slotScratch_mem (by omega))

theorem accesses_of_cells (h : ∀ i ∈ code, i.cells = []) : s.Accesses near code := by
  refine accesses_of_quiet fun i hi c hc => ?_
  rw [h i hi] at hc
  exact absurd hc List.not_mem_nil

theorem accesses_frame {d : ℤ} (hi : i.cells = [(.fp, d)]) (hd : near d) :
    s.Accesses near [i] := by
  intro before j after heq c hc
  have hj : j ∈ [i] := heq ▸ List.mem_append_right _ List.mem_cons_self
  rw [List.mem_singleton.mp hj, hi, List.mem_singleton] at hc
  subst hc
  exact ⟨fun _ => hd, fun hbase => absurd hbase (show Reg.fp ≠ slotScratch by decide)⟩

theorem cells_loadImm (n : Int64) : ∀ i ∈ loadImm dst n, i.cells = [] := by
  rw [loadImm]
  split <;> exact List.forall_mem_singleton.mpr rfl

theorem cells_slotAddress (off : Int32) : ∀ i ∈ slotAddress off, i.cells = [] := by
  rw [slotAddress]
  split
  · exact List.forall_mem_singleton.mpr rfl
  · exact List.forall_mem_append.mpr ⟨cells_loadImm _, List.forall_mem_singleton.mpr rfl⟩

theorem cells_moveReg : ∀ i ∈ moveReg dst src, i.cells = [] := by
  rw [moveReg]
  split
  · exact List.forall_mem_nil _
  · exact List.forall_mem_singleton.mpr rfl

theorem cells_symbolAddress (symbol : String) : ∀ i ∈ symbolAddress dst symbol, i.cells = [] := by
  simp [symbolAddress, Inst.cells]

/-- Once its address is in the slot scratch register, a far slot is at distance 0. -/
theorem accesses_far (fits : s.layout.Fits) (hhome : s.layout.home? r = some (.slot off))
    (hi : i.cells = [(slotScratch, 0)]) : s.Accesses near (slotAddress off ++ [i]) := by
  obtain ⟨hlo, hhi⟩ := Layout.slot_bounds fits hhome
  have hlocals := fits.locals_le
  refine (accesses_of_cells (cells_slotAddress off)).extend fun mid j after heq c hc => ?_
  obtain ⟨rfl, rfl, -⟩ : mid = [] ∧ i = j ∧ [] = after := by
    cases mid with
    | nil => simpa using heq
    | cons _ _ => simp at heq
  rw [hi, List.mem_singleton] at hc
  subst hc
  refine ⟨fun hbase => absurd hbase (show slotScratch ≠ Reg.fp by decide), fun _ => ?_⟩
  refine ⟨r, off, hhome, hhi, fun env t => ?_⟩
  rw [List.append_nil, execs_slotAddress (by omega) (by omega), A64.State.reg_set_self, addr_zero,
    A64.State.reg_set_of_ne t _ (show Reg.fp ≠ slotScratch by decide)]

/-! ## Accesses of the parts of code -/

section Parts
variable (fits : s.layout.Fits) (hslots : ∀ d ≤ -8, near d)
include fits hslots

theorem accesses_slotAccess (access : Reg → Int32 → Inst)
    (hcells : ∀ rn off, (access rn off).cells = [(rn, off.toInt)])
    (hhome : s.layout.home? r = some (.slot off)) : s.Accesses near (slotAccess access off) := by
  rw [slotAccess]
  split
  · exact accesses_frame (hcells _ _) (hslots _ (Layout.slot_bounds fits hhome).2)
  · exact accesses_far fits hhome (hcells _ _)

theorem accesses_load (h : s.load dst r = .ok code) : s.Accesses near code := by
  obtain ⟨home, hhome, rfl⟩ := Site.map_home_ok h
  cases home with
  | slot off => exact accesses_slotAccess fits hslots (.ldr dst) (fun _ _ => rfl) hhome
  | param k => exact accesses_of_cells cells_moveReg

theorem accesses_store (h : s.store src r = .ok code) : s.Accesses near code := by
  obtain ⟨home, hhome, rfl⟩ := Site.map_home_ok h
  cases home with
  | slot off => exact accesses_slotAccess fits hslots (.str src) (fun _ _ => rfl) hhome
  | param k => exact accesses_of_cells cells_moveReg

theorem accesses_fetches {operand : Operand} (h : s.Fetches dst operand code) :
    s.Accesses near code := by
  cases h with
  | reg hload => exact accesses_load fits hslots hload
  | imm n => exact accesses_of_cells (cells_loadImm n)

end Parts

section Saved
variable (fits : s.layout.Fits) (hall : ∀ d, near d)
include hall

theorem accesses_saves (live : List (Fin 8)) (f : Fin 8 → Inst)
    (hf : ∀ k, (f k).cells = [(.fp, (paramSpillOffset (.ofNat k.val)).toInt)]) :
    s.Accesses near (live.map f) := by
  induction live with
  | nil => exact accesses_of_cells (List.forall_mem_nil _)
  | cons k live ih => exact (accesses_frame (hf k) (hall _)).append ih

include fits

theorem accesses_loadArgs {args : List VReg} {index : ℕ} (h : s.loadArgs index args = .ok code) :
    s.Accesses near code := by
  induction args generalizing index code with
  | nil =>
    cases h
    exact accesses_of_cells (List.forall_mem_nil _)
  | cons arg args ih =>
    obtain ⟨first, rest, hfirst, hrest, rfl⟩ := Site.loadArgs_ok h
    refine Site.Accesses.append ?_ (ih hrest)
    obtain ⟨home, hhome, rfl⟩ := Site.map_home_ok hfirst
    cases home with
    | slot off => exact accesses_slotAccess fits (fun d _ => hall d) (.ldr _) (fun _ _ => rfl) hhome
    | param k => exact accesses_frame rfl (hall _)

theorem accesses_storeResult (h : s.storeResult src r = .ok code) : s.Accesses near code := by
  obtain ⟨home, hhome, rfl⟩ := Site.map_home_ok h
  cases home with
  | slot off => exact accesses_slotAccess fits (fun d _ => hall d) (.str src) (fun _ _ => rfl) hhome
  | param k => exact accesses_frame rfl (hall _)

theorem accesses_storeTarget {target : Option VReg} (h : s.storeTarget target = .ok code) :
    s.Accesses near code := by
  cases target with
  | none =>
    cases h
    exact accesses_of_cells (List.forall_mem_nil _)
  | some r => exact accesses_storeResult fits hall h

theorem accesses_callFunction {target : Option VReg} {function : String} {args : List VReg}
    (h : s.callFunction target function args = .ok code) : s.Accesses near code := by
  obtain ⟨arguments, result, -, harguments, hresult, rfl⟩ := s.callFunction_ok h
  have hroom : ∀ i : Inst, i.cells = [] →
      s.Accesses near (if 0 < homeAreaSize args.length then [i] else []) := by
    intro i hi
    refine accesses_of_cells fun j hj => ?_
    split at hj
    · rw [List.mem_singleton.mp hj, hi]
    · exact absurd hj List.not_mem_nil
  have hsaved := accesses_saves (s := s) hall s.layout.paramIndices
  exact ((((((hsaved _ fun _ => rfl).append (hroom _ rfl)).append
    (accesses_loadArgs fits hall harguments)).append
    (accesses_of_cells (List.forall_mem_singleton.mpr rfl))).append (hroom _ rfl)).append
    (accesses_storeTarget fits hall hresult)).append (hsaved _ fun _ => rfl)

end Saved

/-- Only calls access their frame above the frame pointer. -/
theorem accesses_of_emits {inst : Instruction} (fits : s.layout.Fits) (h : s.Emits inst code) :
    s.Accesses (fun d => inst.isCall = false → d ≤ -8) code := by
  -- in a call every distance is allowed, and in other code those of slots
  have hslots : ∀ d ≤ (-8 : ℤ), inst.isCall = false → d ≤ -8 := fun d hd _ => hd
  have hall : inst.isCall = true → ∀ d : ℤ, inst.isCall = false → d ≤ -8 :=
    fun htrue d hfalse => by simp [htrue] at hfalse
  have single : ∀ {near : ℤ → Prop} {i : Inst}, i.cells = [] → s.Accesses near [i] :=
    fun hi => accesses_of_cells (List.forall_mem_singleton.mpr hi)
  have data : ∀ {near : ℤ → Prop} {i : Inst} {rn : Reg} {d : ℤ}, rn.Temporary →
      i.cells = [(rn, d)] → s.Accesses near [i] := by
    intro near i rn d hrn hi
    refine accesses_of_quiet (List.forall_mem_singleton.mpr fun c hc => ?_)
    rw [hi, List.mem_singleton] at hc
    exact hc ▸ low_of_temporary hrn
  cases h with
  | mov ha hcode hresult =>
    exact (accesses_fetches fits hslots hcode).append (accesses_store fits hslots hresult)
  | binaryImm ha hcode hi hresult =>
    exact ((accesses_load fits hslots hcode).append (single (cells_of_works
      (works_immediateInst (low_of_temporary ha) hi)))).append (accesses_store fits hslots hresult)
  | @binary op _ _ _ _ _ _ _ _ ha hb hne hcode hrcode hresult =>
    refine ((accesses_load fits hslots hcode).append ((accesses_fetches fits hslots
      hrcode).append (single ?_))).append (accesses_store fits hslots hresult)
    cases op <;> rfl
  | @unary op _ _ _ _ _ ha hcode hresult =>
    refine ((accesses_load fits hslots hcode).append (single ?_)).append
      (accesses_store fits hslots hresult)
    cases op <;> rfl
  | compare ha hb hne hcode hrcode hresult =>
    exact (((accesses_load fits hslots hcode).append (accesses_fetches fits hslots
      hrcode)).append ((single rfl).append (single rfl))).append
      (accesses_store fits hslots hresult)
  | loadGlobal ha hresult =>
    exact ((accesses_of_cells (cells_symbolAddress _)).append (data ha rfl)).append
      (accesses_store fits hslots hresult)
  | storeGlobal ha hb hne hcode =>
    exact ((accesses_load fits hslots hcode).append
      (accesses_of_cells (cells_symbolAddress _))).append (data hb rfl)
  | loadField ha hcode hresult =>
    exact ((accesses_load fits hslots hcode).append (data ha rfl)).append
      (accesses_store fits hslots hresult)
  | storeField ha hb hne hcode hbcode =>
    exact ((accesses_load fits hslots hcode).append (accesses_load fits hslots hbcode)).append
      (data hb rfl)
  | new hresult =>
    have hsaved := accesses_saves (s := s) (hall rfl) s.layout.paramIndices
    exact ((((hsaved _ fun _ => rfl).append (accesses_of_cells (cells_loadImm _))).append
      (single rfl)).append (accesses_storeResult fits (hall rfl) hresult)).append
      (hsaved _ fun _ => rfl)
  | delete hcode =>
    have hsaved := accesses_saves (s := s) (hall rfl) s.layout.paramIndices
    exact (((hsaved _ fun _ => rfl).append (accesses_load fits hslots hcode)).append
      (single rfl)).append (hsaved _ fun _ => rfl)
  | print hcode =>
    have hsaved := accesses_saves (s := s) (hall rfl) s.layout.paramIndices
    exact ((((hsaved _ fun _ => rfl).append (accesses_load fits hslots hcode)).append
      (accesses_of_cells (cells_symbolAddress _))).append (single rfl)).append
      (hsaved _ fun _ => rfl)
  | call hcode => exact accesses_callFunction fits (hall rfl) hcode
  | branch name => exact single rfl
  | @condBranch _ onTrue _ _ _ ha hcode =>
    refine (accesses_load fits hslots hcode).append (single ?_)
    cases onTrue <;> rfl
  | ret => exact single rfl
  | retValue hcode => exact (accesses_load fits hslots hcode).append (single rfl)

end Accesses

/-! ## Between saving and restoring -/

/-- The store of a call's result whose target is a parameter, where that parameter is saved. -/
def Site.savedResult (s : Site) (target : Option VReg) : List Inst :=
  match target.bind s.layout.home? with
  | some (.param k) => [.str (.x 0) .fp (.ofInt (16 + 8 * k.val))]
  | _ => []

/-- The code of a call. All live parameters are saved first and come back last, in ascending order.
In between nothing is stored where parameters are saved, but for the result if the target is one. -/
inductive Site.SavesAround (s : Site) (target : Option VReg) : List Inst → Prop where
  | intro {live : List (Fin 8)} {routine : String} {before after : List Inst}
      (hlive : ∀ k, k ∈ live ↔ ∃ r, s.layout.home? r = some (.param k))
      (hascending : live.Pairwise (· < ·))
      (hbefore : ∀ i ∈ before, i.stores = false)
      (hafter : ∀ i ∈ after, i.stores = true →
        ∃ d, i.cells = [(.fp, d)] ∨ i.cells = [(slotScratch, d)])
      (hresult : after.filter Inst.spills = s.savedResult target) :
      SavesAround s target
        (live.map (fun k => .str (argReg k) .fp (.ofInt (16 + 8 * k.val))) ++ before
          ++ [.bl routine] ++ after
          ++ live.map fun k => .ldr (argReg k) .fp (.ofInt (16 + 8 * k.val)))

section SavesAround
variable {s : Site} {i : Inst} {dst src : Reg} {r : VReg} {target : Option VReg}
  {code before after : List Inst}

theorem paramSpillOffset_eq (k : Fin 8) :
    paramSpillOffset (.ofNat k.val) = .ofInt (16 + 8 * k.val) := by
  revert k
  decide

theorem pairwise_paramIndices (l : Layout) : l.paramIndices.Pairwise (· < ·) :=
  (List.pairwise_lt_finRange 8).filter _

theorem stores_loadImm (n : Int64) : ∀ i ∈ loadImm dst n, i.stores = false := by
  rw [loadImm]
  split <;> exact List.forall_mem_singleton.mpr rfl

theorem stores_slotAddress (off : Int32) : ∀ i ∈ slotAddress off, i.stores = false := by
  rw [slotAddress]
  split
  · exact List.forall_mem_singleton.mpr rfl
  · exact List.forall_mem_append.mpr ⟨stores_loadImm _, List.forall_mem_singleton.mpr rfl⟩

theorem stores_loadSlot (off : Int32) : ∀ i ∈ loadSlot dst off, i.stores = false := by
  rw [loadSlot]
  split
  · exact List.forall_mem_singleton.mpr rfl
  · exact List.forall_mem_append.mpr ⟨stores_slotAddress off, List.forall_mem_singleton.mpr rfl⟩

theorem stores_load (h : s.load dst r = .ok code) : ∀ i ∈ code, i.stores = false := by
  obtain ⟨home, -, rfl⟩ := Site.map_home_ok h
  cases home with
  | slot off => exact stores_loadSlot off
  | param k =>
    dsimp only
    rw [moveReg]
    split
    · exact List.forall_mem_nil _
    · exact List.forall_mem_singleton.mpr rfl

theorem stores_loadArgs {args : List VReg} {index : ℕ} (h : s.loadArgs index args = .ok code) :
    ∀ i ∈ code, i.stores = false := by
  induction args generalizing index code with
  | nil =>
    cases h
    exact List.forall_mem_nil _
  | cons arg args ih =>
    obtain ⟨first, rest, hfirst, hrest, rfl⟩ := Site.loadArgs_ok h
    refine List.forall_mem_append.mpr ⟨?_, ih hrest⟩
    obtain ⟨home, -, rfl⟩ := Site.map_home_ok hfirst
    cases home with
    | slot off => exact stores_loadSlot off
    | param k => exact List.forall_mem_singleton.mpr rfl

theorem filter_spills_of_stores (h : ∀ i ∈ code, i.stores = false) :
    code.filter Inst.spills = [] := by
  rw [List.filter_eq_nil_iff]
  intro i hi
  simp [Inst.spills, h i hi]

theorem stores_storeSlot {off : Int32} (hi : i ∈ storeSlot src off) (hstores : i.stores = true) :
    ∃ d, i.cells = [(.fp, d)] ∨ i.cells = [(slotScratch, d)] := by
  rw [storeSlot] at hi
  split at hi
  · rw [List.mem_singleton.mp hi]
    exact ⟨_, .inl rfl⟩
  · rcases List.mem_append.mp hi with hi | hi
    · rw [stores_slotAddress off i hi] at hstores
      cases hstores
    · rw [List.mem_singleton.mp hi]
      exact ⟨_, .inr rfl⟩

theorem filter_spills_storeSlot {off : Int32} (hoff : off.toInt ≤ -8) :
    (storeSlot src off).filter Inst.spills = [] := by
  have hneg : ¬ 0 < off.toInt := by omega
  rw [storeSlot]
  split
  · simp [Inst.spills, Inst.stores, Inst.cells, hneg]
  · rw [List.filter_append, filter_spills_of_stores (stores_slotAddress off)]
    rfl

theorem savedResult_of_storeTarget (fits : s.layout.Fits) (h : s.storeTarget target = .ok code) :
    (∀ i ∈ code, i.stores = true → ∃ d, i.cells = [(.fp, d)] ∨ i.cells = [(slotScratch, d)]) ∧
      code.filter Inst.spills = s.savedResult target := by
  cases target with
  | none =>
    cases h
    exact ⟨List.forall_mem_nil _, rfl⟩
  | some r =>
    obtain ⟨home, hhome, rfl⟩ := Site.map_home_ok h
    cases home with
    | slot off =>
      refine ⟨fun i hi => stores_storeSlot hi, ?_⟩
      have hnone : (storeSlot resultReg off).filter Inst.spills = [] :=
        filter_spills_storeSlot (Layout.slot_bounds fits hhome).2
      simpa [Site.savedResult, hhome] using hnone
    | param k =>
      refine ⟨List.forall_mem_singleton.mpr fun _ => ⟨_, .inl rfl⟩, ?_⟩
      have hspills : ∀ k, (saveParam k resultReg).spills = true := by decide
      rw [List.filter_cons_of_pos (hspills k), saveParam, paramSpillOffset_eq]
      simp [Site.savedResult, hhome, resultReg]

/-- Before the call nothing is stored, and after it only the result. -/
theorem savesAround_of_parts (fits : s.layout.Fits) (routine : String) {room result : List Inst}
    (hbefore : ∀ i ∈ before, i.stores = false) (hroom : ∀ i ∈ room, i.stores = false)
    (hresult : s.storeTarget target = .ok result) :
    s.SavesAround target
      (s.saveParams ++ before ++ [.bl routine] ++ (room ++ result) ++ s.restoreParams) := by
  obtain ⟨hafter, hspills⟩ := savedResult_of_storeTarget fits hresult
  have hsave : s.saveParams
      = s.layout.paramIndices.map fun k => .str (argReg k) .fp (.ofInt (16 + 8 * k.val)) :=
    List.map_congr_left fun k _ => by rw [saveParam, paramSpillOffset_eq]
  have hrestore : s.restoreParams
      = s.layout.paramIndices.map fun k => .ldr (argReg k) .fp (.ofInt (16 + 8 * k.val)) :=
    List.map_congr_left fun k _ => by rw [restoreParam, paramSpillOffset_eq]
  rw [hsave, hrestore]
  refine .intro (fun k => Layout.mem_paramIndices) (pairwise_paramIndices _) hbefore ?_ ?_
  · refine List.forall_mem_append.mpr ⟨fun i hi hstores => ?_, hafter⟩
    rw [hroom i hi] at hstores
    cases hstores
  · rw [List.filter_append, filter_spills_of_stores hroom, List.nil_append, hspills]

theorem savesAround_of_emits {inst : Instruction} (fits : s.layout.Fits) (h : s.Emits inst code)
    (hcall : inst.isCall = true) : s.SavesAround inst.target? code := by
  have hnone : ∀ i ∈ ([] : List Inst), i.stores = false := List.forall_mem_nil _
  have hroom : ∀ (n : ℕ) (i : Inst), i.stores = false →
      ∀ j ∈ if 0 < homeAreaSize n then [i] else [], j.stores = false := by
    intro n i hi j hj
    split at hj
    · rwa [List.mem_singleton.mp hj]
    · exact absurd hj List.not_mem_nil
  cases h with
  | @new target _ _ _ hresult =>
    have hstore : s.storeTarget (some target) = _ := hresult
    exact savesAround_of_parts fits _ (stores_loadImm _) hnone hstore
  | @delete _ code hcode =>
    have hsaves : s.SavesAround none (s.saveParams ++ code ++ [.bl s.settings.runtime.free]
        ++ ([] ++ []) ++ s.restoreParams) :=
      savesAround_of_parts fits _ (stores_load hcode) hnone rfl
    rwa [List.append_nil, List.append_nil] at hsaves
  | @print _ code hcode =>
    have haddress : ∀ i ∈ symbolAddress (.x 0) intFormatLabel, i.stores = false := by decide
    have hsaves : s.SavesAround none (s.saveParams
        ++ (code ++ symbolAddress (.x 0) intFormatLabel) ++ [.bl s.settings.runtime.printf]
        ++ ([] ++ []) ++ s.restoreParams) :=
      savesAround_of_parts fits _ (List.forall_mem_append.mpr ⟨stores_load hcode, haddress⟩)
        hnone rfl
    rwa [List.append_nil, List.append_nil, ← List.append_assoc] at hsaves
  | @call _ function args _ hcode =>
    obtain ⟨arguments, result, -, harguments, hresult, rfl⟩ := s.callFunction_ok hcode
    have hreserve := hroom args.length (.subImm .sp .sp (homeAreaSize args.length)) rfl
    have hgiveBack := hroom args.length (.addImm .sp .sp (homeAreaSize args.length)) rfl
    have hsaves := savesAround_of_parts fits function
      (List.forall_mem_append.mpr ⟨hreserve, stores_loadArgs harguments⟩) hgiveBack hresult
    simpa only [List.append_assoc, Instruction.target?] using hsaves
  | _ => cases hcall

end SavesAround

/-! ## Calls -/

section Calls
variable {s : Site} {inst : Instruction} {code : List Inst} {lines : List Line}

theorem exists_callee (runtime : RuntimeSymbols) (h : inst.isCall = true) :
    ∃ routine n, inst.callee runtime = some (routine, n) := by
  cases inst with
  | new | delete | print | call => exact ⟨_, _, rfl⟩
  | _ => cases h

theorem isCall_of_callee {runtime : RuntimeSymbols} {routine : String} {n : ℕ}
    (h : inst.callee runtime = some (routine, n)) : inst.isCall = true := by
  cases inst with
  | new | delete | print | call => rfl
  | _ => cases h

theorem countP_isCall_of_notMem (h : ∀ routine, .bl routine ∉ code) :
    (code.map Line.inst).countP Line.isCall = 0 := by
  rw [List.countP_eq_zero]
  intro line hline
  obtain ⟨i, hi, rfl⟩ := List.mem_map.mp hline
  cases i with
  | bl routine => exact absurd hi (h routine)
  | _ => exact Bool.false_ne_true

theorem countP_isCall_annotation (s : Site) (inst : Instruction) :
    (s.annotation inst).countP Line.isCall = 0 := by
  refine List.countP_eq_zero.mpr fun line hline => ?_
  obtain ⟨text, rfl⟩ := Site.comment_of_annotationLine hline
  exact Bool.false_ne_true

/-- Lowering calls a routine exactly where an instruction is a call. -/
theorem countP_isCall_of_emits (fits : s.layout.Fits) (h : s.Emits inst code) :
    (code.map Line.inst).countP Line.isCall = if inst.isCall then 1 else 0 := by
  split
  · next hcall =>
    obtain ⟨routine, n, hcallee⟩ := exists_callee s.settings.runtime hcall
    obtain ⟨-, before, after, rfl, hbefore, hafter⟩ := call_parts fits h hcallee
    have hbl : ([Inst.bl routine].map Line.inst).countP Line.isCall = 1 := rfl
    rw [List.map_append, List.map_append, List.countP_append, List.countP_append, hbl,
      countP_isCall_of_notMem fun _ => bl_notMem_of_path hbefore,
      countP_isCall_of_notMem fun _ => bl_notMem_of_path hafter]
  · next hcall =>
    refine countP_isCall_of_notMem fun routine hmem => hcall ?_
    obtain ⟨n, hcallee⟩ := callee_of_bl h hmem
    exact isCall_of_callee hcallee

/-- An instruction is a call exactly if its code calls a routine, and then it does so once. A call
saves all live parameters around it; no other code accesses memory above the frame pointer. -/
theorem lower_saves_parameters {frag : Fragment} {w after : Workspace}
    (hlayout : Layout.ofFragment frag = .ok s.layout) (hw : w.pool.Temporaries)
    (h : (s.lower inst).run w = (.ok lines, after)) :
    lines.countP Line.isCall = (if inst.isCall then 1 else 0) ∧
      s.Accesses (fun d => inst.isCall = false → d ≤ -8) (Line.instructions lines) ∧
      (inst.isCall = true → ∃ code, lines = s.annotation inst ++ code.map .inst ∧
        s.SavesAround inst.target? code) := by
  have fits := Layout.fits_of_ofFragment hlayout
  obtain ⟨⟨code, hprints, rfl⟩, -⟩ := Site.prints_of_lower hw h
  rw [List.countP_append, countP_isCall_annotation, Nat.zero_add, instructions_append,
    instructions_annotation, List.nil_append]
  cases hprints with
  | label name => exact ⟨rfl, accesses_of_cells (List.forall_mem_nil _), nofun⟩
  | @code _ code hemits =>
    rw [instructions_map_inst]
    exact ⟨countP_isCall_of_emits fits hemits, accesses_of_emits fits hemits,
      fun hcall => ⟨code, rfl, savesAround_of_emits fits hemits hcall⟩⟩

end Calls

/-- A call that passes on its parameters in the other order, and whose result is one of them. -/
def swapped : Fragment where
  label := "swapped"
  params := [⟨0⟩, ⟨1⟩]
  body := [.call (some ⟨1⟩) "next" [⟨1⟩, ⟨0⟩]]

theorem saves_parameters_swapped :
    ∃ layout lines after, Layout.ofFragment swapped = .ok layout ∧
      Pool.temporaries.Temporaries ∧
      ((layout.site .default [] swapped).lower (.call (some ⟨1⟩) "next" [⟨1⟩, ⟨0⟩])).run
        ⟨.temporaries, []⟩ = (.ok lines, after) ∧
      lines.countP Line.isCall = 1 ∧ .inst (.str (.x 0) .fp 24) ∈ lines ∧
      ∃ code, lines = code.map .inst ∧
        (layout.site .default [] swapped).SavesAround (some ⟨1⟩) code := by
  have hlower : ∃ layout lines after, Layout.ofFragment swapped = .ok layout ∧
      ((layout.site .default [] swapped).lower (.call (some ⟨1⟩) "next" [⟨1⟩, ⟨0⟩])).run
        ⟨.temporaries, []⟩ = (.ok lines, after) ∧
      .inst (.str (.x 0) .fp 24) ∈ lines := ⟨_, _, _, rfl, rfl, by decide⟩
  obtain ⟨layout, lines, after, hlayout, hlower, hstore⟩ := hlower
  have hlayout' : Layout.ofFragment swapped = .ok (layout.site .default [] swapped).layout :=
    hlayout
  obtain ⟨hcount, -, hcall⟩ := lower_saves_parameters hlayout' Pool.temporaries_free hlower
  exact ⟨layout, lines, after, hlayout, Pool.temporaries_free, hlower, hcount, hstore, hcall rfl⟩

end A64Lowering
