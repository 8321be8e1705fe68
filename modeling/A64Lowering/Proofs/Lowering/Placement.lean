import Mathlib
import A64Lowering.Proofs.Program.Lowerable

/-! # Where a layout puts registers

* `idxOf?_eq_some_iff_split`: the index of an element is the number of elements before its first
  occurrence.
* `idxOf?_slotRegs`: the rank of a register among those with a slot is the number of registers that
  the body defines before it.
* `Layout.Places`: the homes of a fragment's registers, told by its parameters and its body.
* `ofFragment_places`: every layout is of this kind, and slots stay where they are when the body goes
  on. -/
namespace A64Lowering
set_option autoImplicit false

open A64 Ir

/-! ## First occurrences -/

section Lists
variable {α : Type} [DecidableEq α] {a : α} {l : List α}

theorem idxOf?_eq_some_iff_split {k : ℕ} : l.idxOf? a = some k ↔
    ∃ before after, l = before ++ a :: after ∧ a ∉ before ∧ k = before.length := by
  rw [List.idxOf?_eq_some_iff]
  constructor
  · rintro ⟨hk, hget, hbefore⟩
    refine ⟨l.take k, l.drop (k + 1), ?_, ?_, by simp; omega⟩
    · rw [← hget, List.getElem_cons_drop, List.take_append_drop]
    · intro hmem
      obtain ⟨j, hj, heq⟩ := List.mem_take_iff_getElem.mp hmem
      exact hbefore j (by omega) heq
  · rintro ⟨before, after, rfl, hbefore, rfl⟩
    refine ⟨by simp, by simp, fun j hj heq => hbefore ?_⟩
    rw [List.getElem_append_left hj] at heq
    exact heq ▸ List.getElem_mem hj

theorem eraseDups_append_cons {front back : List α} (h : a ∉ front) :
    ∃ rest, (front ++ a :: back).eraseDups = front.eraseDups ++ a :: rest := by
  have hremove : (a :: back).removeAll front = a :: back.removeAll front := by
    simp [List.removeAll, h]
  exact ⟨_, by rw [List.eraseDups_append, hremove, List.eraseDups_cons]⟩

end Lists

/-! ## Ranks -/

/-- The fragment with another body. -/
def Ir.Fragment.withBody (frag : Fragment) (body : List Instruction) : Fragment :=
  { frag with body }

section Ranks
variable {frag : Fragment} {r : VReg} {before after : List Instruction} {inst : Instruction}

/-- A defined register has an instruction that defines it first. -/
theorem exists_first_target (h : ∃ inst ∈ frag.body, inst.target? = some r) :
    ∃ before inst after, frag.body = before ++ inst :: after ∧ inst.target? = some r ∧
      ∀ first ∈ before, first.target? ≠ some r := by
  obtain ⟨inst, hfind⟩ : ∃ inst, frag.body.find? (·.target? == some r) = some inst := by
    rw [← Option.isSome_iff_exists, List.find?_isSome]
    simpa using h
  obtain ⟨htarget, before, after, hbody, hbefore⟩ := List.find?_eq_some_iff_append.mp hfind
  exact ⟨before, inst, after, hbody, by simpa using htarget, by simpa using hbefore⟩

theorem idxOf?_slotRegs (hbody : frag.body = before ++ inst :: after)
    (htarget : inst.target? = some r) (hfirst : ∀ first ∈ before, first.target? ≠ some r)
    (hparam : r ∉ frag.params) :
    frag.slotRegs.idxOf? r = some (frag.withBody before).locals.card := by
  have hnot : r ∉ (before.filterMap (·.target?)).filter (!frag.params.contains ·) := by
    intro hmem
    obtain ⟨first, hmem, heq⟩ := List.mem_filterMap.mp (List.mem_filter.mp hmem).1
    exact hfirst first hmem heq
  have hregs : (frag.body.filterMap (·.target?)).filter (!frag.params.contains ·)
      = (before.filterMap (·.target?)).filter (!frag.params.contains ·)
        ++ r :: (after.filterMap (·.target?)).filter (!frag.params.contains ·) := by
    rw [hbody, List.filterMap_append, List.filter_append, List.filterMap_cons_some htarget,
      List.filter_cons_of_pos (by simpa using hparam)]
  obtain ⟨rest, hsplit⟩ : ∃ rest, frag.slotRegs = (frag.withBody before).slotRegs ++ r :: rest := by
    rw [Fragment.slotRegs, hregs]
    exact eraseDups_append_cons hnot
  rw [idxOf?_eq_some_iff_split]
  refine ⟨_, rest, hsplit, ?_, (length_slotRegs _).symm⟩
  rw [mem_slotRegs, mem_locals]
  rintro ⟨-, first, hmem, heq⟩
  exact hfirst first hmem heq

end Ranks

/-! ## Homes -/

theorem A64.Frame.rawSize_of_ofSlots {slots : ℕ} {f : Frame} (h : ofSlots slots = .ok f) :
    f.rawSize.toNat = 8 * slots := by
  have h8 : slotSize.toNat = 8 := rfl
  rw [ofSlots, h8] at h
  split at h
  · rw [ofSize] at h
    split at h
    · cases h
    · dsimp only at h
      split at h
      · cases h
        rw [UInt32.toNat_ofNat_of_lt' (by assumption), Nat.mul_comm]
      · cases h
  · cases h

namespace Layout

/-- Where a layout puts the registers of a fragment. -/
structure Places (l : Layout) (frag : Fragment) : Prop where
  /-- A parameter stays in the argument register of its first position. -/
  param : ∀ r k, l.home? r = some (.param k) ↔
    ∃ before after, frag.params = before ++ r :: after ∧ r ∉ before ∧ k.val = before.length
  isParam : ∀ r, (∃ k, l.home? r = some (.param k)) ↔ r ∈ frag.params
  /-- Any other register has a slot below those of the registers that are defined before it. -/
  slot : ∀ r off, l.home? r = some (.slot off) ↔ r ∉ frag.params ∧
    ∃ before inst after, frag.body = before ++ inst :: after ∧ inst.target? = some r ∧
      (∀ first ∈ before, first.target? ≠ some r) ∧
      off.toInt = -8 * ((frag.withBody before).locals.card + 1)
  isSlot : ∀ r, (∃ off, l.home? r = some (.slot off)) ↔
    r ∉ frag.params ∧ ∃ inst ∈ frag.body, inst.target? = some r
  exclusive : ∀ r, l.paramIndex? r = none ∨ l.slot? r = none
  injective : ∀ r q home, l.home? r = some home → l.home? q = some home → r = q
  slotCount : l.slotCount = frag.locals.card
  rawSize : l.frame.rawSize.toNat = 8 * frag.locals.card
  bounds : ∀ r off, l.home? r = some (.slot off) →
    -(l.frame.localsSize.toNat : ℤ) ≤ off.toInt ∧ off.toInt ≤ -8

section Homes
variable {frag : Fragment} {l : Layout} {r q : VReg} {off : Int32}

theorem home?_eq_param_iff {k : Fin 8} : l.home? r = some (.param k) ↔
    ∃ before after, l.params = before ++ r :: after ∧ r ∉ before ∧ k.val = before.length := by
  have hindex : l.params.idxOf? r = (l.paramIndex? r).map (·.val) := by
    rw [paramIndex?, List.idxOf?_eq_map_finIdxOf?_val, Option.map_map]
    rfl
  rw [home?_eq_param, ← idxOf?_eq_some_iff_split, hindex]
  cases l.paramIndex? r with
  | none => simp
  | some j => simp [Fin.ext_iff]

theorem exists_param_iff : (∃ k, l.home? r = some (.param k)) ↔ r ∈ l.params := by
  constructor
  · rintro ⟨k, hk⟩
    obtain ⟨before, after, hparams, -⟩ := home?_eq_param_iff.mp hk
    simp [hparams]
  · intro hmem
    obtain ⟨k, hk⟩ := Option.isSome_iff_exists.mp (List.isSome_idxOf?.mpr hmem)
    obtain ⟨before, after, hparams, hbefore, rfl⟩ := idxOf?_eq_some_iff_split.mp hk
    have hlength : before.length < 8 := by
      have hle := l.params_length
      rw [hparams] at hle
      simp at hle
      omega
    exact ⟨⟨before.length, hlength⟩, home?_eq_param_iff.mpr ⟨_, _, hparams, hbefore, rfl⟩⟩

theorem home?_eq_slot_of_first {before after : List Instruction} {inst : Instruction}
    (h : ofFragment frag = .ok l) (hbody : frag.body = before ++ inst :: after)
    (htarget : inst.target? = some r) (hfirst : ∀ first ∈ before, first.target? ≠ some r)
    (hparam : r ∉ frag.params) : l.home? r = some (.slot off) ↔
      off.toInt = -8 * ((frag.withBody before).locals.card + 1) := by
  obtain ⟨hparams, hslots, -⟩ := ofFragment_ok h
  have hrank := idxOf?_slotRegs hbody htarget hfirst hparam
  obtain ⟨hlt, -⟩ := List.idxOf?_eq_some_iff.mp hrank
  rw [← hslots] at hlt
  have hoffset := toInt_slotOffset (fits_of_ofFragment h) hlt
  rw [home?_eq_slot, paramIndex?_eq_none, hparams, slot?, hslots, hrank, Option.map_some,
    Option.some_inj, ← Int32.toInt_inj, hoffset]
  refine ⟨?_, fun heq => ⟨hparam, by omega⟩⟩
  rintro ⟨-, heq⟩
  omega

theorem exists_slot_iff (h : ofFragment frag = .ok l) : (∃ off, l.home? r = some (.slot off)) ↔
    r ∉ frag.params ∧ ∃ inst ∈ frag.body, inst.target? = some r := by
  obtain ⟨hparams, hslots, -⟩ := ofFragment_ok h
  have hslot : (∃ off, l.slot? r = some off) ↔ r ∈ frag.locals := by
    rw [← Option.ne_none_iff_exists', Ne, slot?_eq_none, not_not, hslots, mem_slotRegs]
  simp only [home?_eq_slot, paramIndex?_eq_none, hparams, exists_and_left, hslot, mem_locals]
  exact ⟨And.right, fun hmem => ⟨hmem.1, hmem⟩⟩

theorem home?_eq_slot_iff (h : ofFragment frag = .ok l) : l.home? r = some (.slot off) ↔
    r ∉ frag.params ∧ ∃ before inst after, frag.body = before ++ inst :: after ∧
      inst.target? = some r ∧ (∀ first ∈ before, first.target? ≠ some r) ∧
      off.toInt = -8 * ((frag.withBody before).locals.card + 1) := by
  constructor
  · intro hhome
    obtain ⟨hparam, hdefined⟩ := (exists_slot_iff h).mp ⟨off, hhome⟩
    obtain ⟨before, inst, after, hbody, htarget, hfirst⟩ := exists_first_target hdefined
    exact ⟨hparam, before, inst, after, hbody, htarget, hfirst,
      (home?_eq_slot_of_first h hbody htarget hfirst hparam).mp hhome⟩
  · rintro ⟨hparam, before, inst, after, hbody, htarget, hfirst, hoff⟩
    exact (home?_eq_slot_of_first h hbody htarget hfirst hparam).mpr hoff

/-- A parameter has no slot, though it may be defined in the body. -/
theorem paramIndex?_or_slot?_eq_none (h : ofFragment frag = .ok l) (r : VReg) :
    l.paramIndex? r = none ∨ l.slot? r = none := by
  obtain ⟨hparams, hslots, -⟩ := ofFragment_ok h
  rw [paramIndex?_eq_none, slot?_eq_none, hparams, hslots, mem_slotRegs, mem_locals]
  by_cases hparam : r ∈ frag.params
  · exact .inr fun hmem => hmem.1 hparam
  · exact .inl hparam

theorem home?_injective (fits : l.Fits) {home : Home} (hr : l.home? r = some home)
    (hq : l.home? q = some home) : r = q := by
  by_contra hne
  cases home with
  | param k => exact params_ne hr hq hne rfl
  | slot off =>
    have hapart := slots_apart fits hr hq hne
    omega

/-- A layout puts every register of its fragment in a home of its own, and no slot moves when
instructions are appended to the body. -/
theorem ofFragment_places (h : ofFragment frag = .ok l) :
    l.Places frag ∧ ∀ more longer, ofFragment (frag.withBody (frag.body ++ more)) = .ok longer →
      ∀ r off, l.home? r = some (.slot off) → longer.home? r = some (.slot off) := by
  obtain ⟨hparams, hslots, hframe⟩ := ofFragment_ok h
  have fits := fits_of_ofFragment h
  refine ⟨⟨fun r k => ?_, fun r => ?_, fun r off => home?_eq_slot_iff h,
    fun r => exists_slot_iff h, paramIndex?_or_slot?_eq_none h,
    fun r q home => home?_injective fits, ?_, ?_, fun r off => slot_bounds fits⟩, ?_⟩
  · rw [← hparams]
    exact home?_eq_param_iff
  · rw [← hparams]
    exact exists_param_iff
  · rw [slotCount, hslots, length_slotRegs]
  · rw [Frame.rawSize_of_ofSlots hframe, length_slotRegs]
  · -- the first definition of a register is the same in the longer body
    intro more longer hlonger r off hhome
    obtain ⟨hparam, before, inst, after, hbody, htarget, hfirst, hoff⟩ :=
      (home?_eq_slot_iff h).mp hhome
    refine (home?_eq_slot_iff hlonger).mpr ⟨hparam, before, inst, after ++ more, ?_, htarget,
      hfirst, hoff⟩
    rw [Fragment.withBody, hbody, List.append_assoc, List.cons_append]

end Homes

/-- A parameter is listed twice and defined in the body, and a register is defined twice. -/
def redefining : Fragment :=
  ⟨"f", [⟨4⟩, ⟨2⟩, ⟨4⟩], [.mov ⟨7⟩ (.imm 1), .mov ⟨4⟩ (.reg ⟨7⟩), .mov ⟨7⟩ (.imm 2),
    .mov ⟨0⟩ (.reg ⟨4⟩), .ret (some ⟨0⟩)]⟩

theorem ofFragment_places_redefining : ∃ l, ofFragment redefining = .ok l ∧ l.Places redefining ∧
    l.home? ⟨2⟩ = some (.param 1) ∧ l.home? ⟨0⟩ = some (.slot (-16)) ∧
    l.frame.rawSize.toNat = 16 := by
  have hlayout : ∃ l, ofFragment redefining = .ok l := ⟨_, rfl⟩
  obtain ⟨l, h⟩ := hlayout
  have hplaces := (ofFragment_places h).1
  refine ⟨l, h, hplaces, (hplaces.param _ _).mpr ?_, (hplaces.slot _ _).mpr ?_, hplaces.rawSize⟩
  · exact ⟨[⟨4⟩], [⟨4⟩], rfl, by decide, rfl⟩
  · exact ⟨by decide, [.mov ⟨7⟩ (.imm 1), .mov ⟨4⟩ (.reg ⟨7⟩), .mov ⟨7⟩ (.imm 2)], _, _, rfl, rfl,
      by decide, by decide⟩

end Layout
end A64Lowering
