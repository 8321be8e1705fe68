import Mathlib
import A64Lowering.Lowering.Layout

/-! # Frames and homes

* `toNat_alignTo`, `Frame.ofSlots_ok`: the frame of some slots is the least multiple of 16 that
  holds them, and no larger than `2 ^ 30` bytes.
* `Frame.sum_spSteps`: the steps of the stack pointer add up to the locals area.
* `Layout.Fits`: the slots of a layout lie in its locals area. `fits_of_ofFragment`.
* `home?_eq_slot`, `home?_eq_param`: where homes are. Two registers never share one. -/
namespace A64Lowering
set_option autoImplicit false

open A64

/-! ## Frames -/

theorem toNat_eq_zero {size : UInt32} (h : ¬ 0 < size) : size.toNat = 0 := by
  rw [UInt32.lt_iff_toNat_lt] at h
  simpa using h

theorem toNat_alignTo {size : UInt32} (h : size.toNat ≤ 2 ^ 30) :
    (alignTo size stackAlign).toNat = (size.toNat + 15) / 16 * 16 := by
  have h16 : stackAlign.toNat = 16 := rfl
  unfold alignTo
  simp only [UInt32.toNat_mul, apply_ite UInt32.toNat, UInt32.toNat_add, UInt32.toNat_div, h16,
    ← UInt32.toNat_inj, UInt32.toNat_mod, UInt32.reduceToNat]
  split <;> omega

namespace A64.Frame

theorem ofSize_ok {rawSize : UInt32} {f : Frame} (h : ofSize rawSize = .ok f) :
    rawSize.toNat ≤ 2 ^ 30 ∧ f.localsSize.toNat = (rawSize.toNat + 15) / 16 * 16 := by
  have hmax : maxFrameSize.toNat = 2 ^ 30 := rfl
  rw [ofSize] at h
  split at h
  · exact absurd h nofun
  · next hle =>
    have hsize : rawSize.toNat ≤ 2 ^ 30 := by
      rw [UInt32.lt_iff_toNat_lt, hmax] at hle
      omega
    dsimp only at h
    split at h
    · cases h
      exact ⟨hsize, toNat_alignTo hsize⟩
    · exact absurd h nofun

theorem ofSlots_ok {slots : ℕ} {f : Frame} (h : ofSlots slots = .ok f) :
    8 * slots ≤ 2 ^ 30 ∧ f.localsSize.toNat = (8 * slots + 15) / 16 * 16 := by
  have h8 : slotSize.toNat = 8 := rfl
  rw [ofSlots] at h
  split at h
  · next hlt =>
    rw [h8] at hlt h
    obtain ⟨hsize, hlocals⟩ := ofSize_ok h
    rw [UInt32.toNat_ofNat_of_lt' (by omega)] at hsize hlocals
    exact ⟨by omega, by omega⟩
  · exact absurd h nofun

theorem sum_spSteps (f : Frame) : (f.spSteps.map UInt32.toNat).sum = f.localsSize.toNat := by
  have hstep : maxSpStep.toNat = 4080 := rfl
  have hrest : ((if 0 < f.localsSize % maxSpStep then [f.localsSize % maxSpStep] else []).map
      UInt32.toNat).sum = f.localsSize.toNat % 4080 := by
    rw [← hstep, ← UInt32.toNat_mod]
    split
    · simp
    · next hpos =>
      exact (toNat_eq_zero hpos).symm
  rw [spSteps, List.map_append, List.sum_append, hrest, List.map_replicate, List.sum_replicate,
    UInt32.toNat_div, hstep, smul_eq_mul, Nat.mul_comm]
  exact Nat.div_add_mod _ _

theorem le_of_mem_spSteps {f : Frame} {step : UInt32} (h : step ∈ f.spSteps) :
    step.toNat ≤ 4080 := by
  have hstep : maxSpStep.toNat = 4080 := rfl
  rw [spSteps, List.mem_append] at h
  rcases h with h | h
  · rw [List.eq_of_mem_replicate h, hstep]
  · split at h
    · rw [List.mem_singleton.mp h, UInt32.toNat_mod, hstep]
      omega
    · exact absurd h List.not_mem_nil

end A64.Frame

/-! ## Layouts -/

namespace Layout

/-- The slots lie in the locals area, which is aligned and not too large. -/
structure Fits (l : Layout) : Prop where
  slots : 8 * l.slots.length ≤ l.frame.localsSize.toNat
  locals_le : l.frame.localsSize.toNat ≤ 2 ^ 30
  aligned : l.frame.localsSize.toNat % 16 = 0

theorem ofFragment_ok {frag : Ir.Fragment} {l : Layout} (h : ofFragment frag = .ok l) :
    l.params = frag.params ∧ l.slots = frag.slotRegs ∧
      Frame.ofSlots frag.slotRegs.length = .ok l.frame := by
  rw [ofFragment] at h
  split at h
  · cases hframe : Frame.ofSlots frag.slotRegs.length with
    | error fault => rw [hframe] at h; exact absurd h nofun
    | ok frame => rw [hframe] at h; cases h; exact ⟨rfl, rfl, rfl⟩
  · exact absurd h nofun

theorem fits_of_ofFragment {frag : Ir.Fragment} {l : Layout} (h : ofFragment frag = .ok l) :
    l.Fits := by
  obtain ⟨-, hslots, hframe⟩ := ofFragment_ok h
  obtain ⟨hle, hlocals⟩ := Frame.ofSlots_ok hframe
  rw [← hslots] at hle hlocals
  exact ⟨by omega, by omega, by omega⟩

/-! ## Homes -/

theorem paramIndex?_eq_some {l : Layout} {r : VReg} {i : Fin 8} (h : l.paramIndex? r = some i) :
    ∃ hi : i.val < l.params.length, l.params[i.val] = r ∧ ∀ j (hj : j < i.val), l.params[j] ≠ r := by
  rw [paramIndex?, Option.map_eq_some_iff] at h
  obtain ⟨j, hj, rfl⟩ := h
  rw [List.finIdxOf?_eq_some_iff] at hj
  exact ⟨j.isLt, hj.1, fun k hk => hj.2 ⟨k, by have := j.isLt; simp at hk; omega⟩ hk⟩

theorem slot?_eq_some {l : Layout} {r : VReg} {off : Int32} (h : l.slot? r = some off) :
    ∃ k, ∃ hk : k < l.slots.length, l.slots[k] = r ∧ off = slotOffset k := by
  rw [slot?, Option.map_eq_some_iff] at h
  obtain ⟨k, hk, rfl⟩ := h
  obtain ⟨hlt, hget, -⟩ := List.idxOf?_eq_some_iff.mp hk
  exact ⟨k, hlt, hget, rfl⟩

theorem paramIndex?_eq_none {l : Layout} {r : VReg} : l.paramIndex? r = none ↔ r ∉ l.params := by
  rw [paramIndex?, Option.map_eq_none_iff, List.finIdxOf?_eq_none_iff]

theorem slot?_eq_none {l : Layout} {r : VReg} : l.slot? r = none ↔ r ∉ l.slots := by
  rw [slot?, Option.map_eq_none_iff, List.idxOf?_eq_none_iff]

theorem home?_eq_param {l : Layout} {r : VReg} {i : Fin 8} :
    l.home? r = some (.param i) ↔ l.paramIndex? r = some i := by
  rw [home?]
  cases l.paramIndex? r with
  | none => simp
  | some j => simp

theorem home?_eq_slot {l : Layout} {r : VReg} {off : Int32} :
    l.home? r = some (.slot off) ↔ l.paramIndex? r = none ∧ l.slot? r = some off := by
  rw [home?]
  cases l.paramIndex? r with
  | none => simp
  | some j => simp

/-- A parameter's home is among the registers saved around calls. -/
theorem mem_paramIndices {l : Layout} {i : Fin 8} :
    i ∈ l.paramIndices ↔ ∃ r, l.home? r = some (.param i) := by
  simp only [paramIndices, List.mem_filter, List.mem_finRange, true_and, List.any_eq_true,
    beq_iff_eq, home?_eq_param]
  constructor
  · rintro ⟨r, -, hr⟩
    exact ⟨r, hr⟩
  · rintro ⟨r, hr⟩
    obtain ⟨hi, hget, -⟩ := paramIndex?_eq_some hr
    exact ⟨r, hget ▸ List.getElem_mem hi, hr⟩

theorem lt_of_mem_paramIndices {l : Layout} {i : Fin 8} (h : i ∈ l.paramIndices) :
    i.val < l.params.length := by
  obtain ⟨r, hr⟩ := mem_paramIndices.mp h
  obtain ⟨hi, -, -⟩ := paramIndex?_eq_some (home?_eq_param.mp hr)
  exact hi

theorem toInt_slotOffset {l : Layout} (fits : l.Fits) {k : ℕ} (hk : k < l.slots.length) :
    (slotOffset k).toInt = -(8 * (k + 1)) := by
  have hslots := fits.slots
  have hle := fits.locals_le
  have hint : (slotOffset k).toInt = -(8 * (k + 1) : ℕ) :=
    Int32.toInt_ofInt_of_le (by omega) (by omega)
  rw [hint]
  omega

section Homes
variable {l : Layout} {r q : VReg}

theorem slot_bounds (fits : l.Fits) {off : Int32} (h : l.home? r = some (.slot off)) :
    -(l.frame.localsSize.toNat : ℤ) ≤ off.toInt ∧ off.toInt ≤ -8 := by
  obtain ⟨k, hk, -, rfl⟩ := slot?_eq_some (home?_eq_slot.mp h).2
  have hslots := fits.slots
  rw [toInt_slotOffset fits hk]
  omega

/-- Different registers have slots without a common byte. -/
theorem slots_apart (fits : l.Fits) {off off' : Int32} (h : l.home? r = some (.slot off))
    (h' : l.home? q = some (.slot off')) (hne : r ≠ q) :
    off.toInt + 8 ≤ off'.toInt ∨ off'.toInt + 8 ≤ off.toInt := by
  obtain ⟨k, hk, rfl, rfl⟩ := slot?_eq_some (home?_eq_slot.mp h).2
  obtain ⟨j, hj, rfl, rfl⟩ := slot?_eq_some (home?_eq_slot.mp h').2
  have hkj : k ≠ j := fun e => hne (by subst e; rfl)
  rw [toInt_slotOffset fits hk, toInt_slotOffset fits hj]
  omega

/-- Different registers come in different argument registers. -/
theorem params_ne {i j : Fin 8} (h : l.home? r = some (.param i)) (h' : l.home? q = some (.param j))
    (hne : r ≠ q) : i ≠ j := by
  rintro rfl
  obtain ⟨hi, hget, -⟩ := paramIndex?_eq_some (home?_eq_param.mp h)
  obtain ⟨_, hget', -⟩ := paramIndex?_eq_some (home?_eq_param.mp h')
  exact hne (hget.symm.trans hget')

end Homes
end Layout
end A64Lowering
