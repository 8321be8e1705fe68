import Mathlib
import A64Lowering.Proofs.Lowering.Related

/-! # Moving values on the machine

* `execs_loadImm`, `execs_slotAddress`, `loadSlot_spec`, `storeSlot_spec`: each form of an immediate
  or an offset does the same.
* `load_spec`, `related_store`, `loadArg_spec`, `storeResult_spec`: a value goes from its home into a
  register and back.
* `saveParams_spec`, `restoreParams_spec`: parameters go to the stack around a call and back. -/
namespace A64Lowering
set_option autoImplicit false

open A64 Ir

variable {env : Env} {s : A64.State}

/-! ## Immediates and slots -/

@[simp] theorem execs_loadImm (dst : Reg) (n : Int64) :
    execs env (loadImm dst n) s = s.set dst n.toBitVec := by
  rw [loadImm]
  split <;> rfl

/-- The slot scratch register gets the address of the slot, near or far. -/
theorem execs_slotAddress {off : Int32} (hlo : -2 ^ 30 ≤ off.toInt) (hhi : off.toInt ≤ 0) :
    execs env (slotAddress off) s = s.set slotScratch (offsetAddr (s.reg .fp) off) := by
  have habs : (off.toInt.natAbs : ℤ) = -off.toInt := by omega
  have hmax : maxAddImm.toNat = 4095 := rfl
  rw [slotAddress]
  split
  · next hle =>
    have hnat : (UInt32.ofNat off.toInt.natAbs).toNat = off.toInt.natAbs :=
      UInt32.toNat_ofNat_of_lt' (by rw [hmax] at hle; show _ < 2 ^ 32; omega)
    rw [execs_cons, execs_nil, exec, hnat, habs, neg_neg]
    rfl
  · have hword : (Int64.ofNat off.toInt.natAbs).toBitVec = BitVec.ofInt 64 (-off.toInt) := by
      rw [← habs, BitVec.ofInt_natCast]
      rfl
    rw [execs_append, execs_loadImm, execs_cons, execs_nil, exec, hword]
    have hfp : (s.set slotScratch (BitVec.ofInt 64 (-off.toInt))).get .fp = s.reg .fp :=
      s.reg_set_of_ne _ (by decide)
    have hscratch : (s.set slotScratch (BitVec.ofInt 64 (-off.toInt))).get slotScratch
        = BitVec.ofInt 64 (-off.toInt) := s.reg_set_self _ _
    rw [hfp, hscratch, A64.State.set_set, offsetAddr, addr, BitVec.ofInt_neg]
    congr 1
    bv_omega

theorem loadSlot_spec {rs : Set Reg} {dst : Reg} {off : Int32} (hlo : -2 ^ 30 ≤ off.toInt)
    (hhi : off.toInt ≤ 0) (hdst : dst ∈ rs) (hscratch : slotScratch ∈ rs) :
    Changes rs s (execs env (loadSlot dst off) s) ∧
      (execs env (loadSlot dst off) s).reg dst = s.mem.read (offsetAddr (s.reg .fp) off) := by
  rw [loadSlot]
  split
  · exact ⟨(Changes.refl rs s).set _ hdst, s.reg_set_self _ _⟩
  · rw [execs_append, execs_slotAddress hlo hhi, execs_cons, execs_nil, exec]
    refine ⟨((Changes.refl rs s).set _ hscratch).set _ hdst, ?_⟩
    have hbase : (s.set slotScratch (offsetAddr (s.reg .fp) off)).get slotScratch
        = offsetAddr (s.reg .fp) off := s.reg_set_self _ _
    rw [A64.State.reg_set_self, hbase, offsetAddr, offsetAddr, Int32.toInt_zero, addr_zero]
    rfl

variable (env) in
theorem storeSlot_spec {src : Reg} {off : Int32} (hlo : -2 ^ 30 ≤ off.toInt)
    (hhi : off.toInt ≤ 0) (hsrc : src ∈ Reg.among 0 15) :
    ∃ t, Changes (Reg.among 16 16) s t ∧
      execs env (storeSlot src off) s = t.store (offsetAddr (s.reg .fp) off) (s.reg src) := by
  obtain ⟨n, -, hn, rfl⟩ := hsrc
  rw [storeSlot]
  split
  · exact ⟨s, Changes.refl _ s, rfl⟩
  · rw [execs_append, execs_slotAddress hlo hhi, execs_cons, execs_nil, exec]
    refine ⟨_, (Changes.refl _ s).set (offsetAddr (s.reg .fp) off) Reg.slotScratch_mem, ?_⟩
    have hmem : Reg.x n ∈ Reg.among 0 15 := ⟨n, Nat.zero_le _, hn, rfl⟩
    have hne : Reg.x n ≠ slotScratch := Reg.ne_of_mem_among hmem Reg.slotScratch_mem (by omega)
    have hbase : (s.set slotScratch (offsetAddr (s.reg .fp) off)).get slotScratch
        = offsetAddr (s.reg .fp) off := s.reg_set_self _ _
    rw [hbase, A64.State.get_x, A64.State.reg_set_of_ne s _ hne, offsetAddr, offsetAddr,
      Int32.toInt_zero, addr_zero]

theorem offsetAddr_spill (fp : Word) (i : Fin 8) :
    offsetAddr fp (paramSpillOffset (.ofNat i.val)) = addr fp (16 + 8 * i.val) := by
  have h : ∀ i : Fin 8, (paramSpillOffset (.ofNat i.val)).toInt = 16 + 8 * i.val := by decide
  rw [offsetAddr, h]

variable (env) in
theorem exec_saveParam {fp : Word} (i : Fin 8) {src : Reg} (h : s.reg .fp = fp)
    (hsrc : src ∈ Reg.among 0 31) :
    exec env s (saveParam i src) = s.store (addr fp (16 + 8 * i.val)) (s.reg src) := by
  obtain ⟨n, -, -, rfl⟩ := hsrc
  have hbase : s.get .fp = fp := h
  rw [saveParam, exec, hbase, offsetAddr_spill, A64.State.get_x]

variable (env) in
theorem exec_restoreParam {fp : Word} (i : Fin 8) (dst : Reg) (h : s.reg .fp = fp) :
    exec env s (restoreParam i dst) = s.set dst (s.mem.read (addr fp (16 + 8 * i.val))) := by
  have hbase : s.get .fp = fp := h
  rw [restoreParam, exec, hbase, offsetAddr_spill]

theorem execs_moveReg {dst src : Reg} (hsrc : src ∈ Reg.among 0 31) :
    execs env (moveReg dst src) s = s.set dst (s.reg src) := by
  obtain ⟨n, -, -, rfl⟩ := hsrc
  rw [moveReg]
  split
  · next heq =>
    subst heq
    rw [execs_nil, A64.State.set_reg_self]
  · rfl

/-! ## Homes -/

namespace Site
variable {site : Site} {fp : Word} {w : World} {σ : Ir.State} {rs : Set Reg} {dst src : Reg}
  {r : VReg} {code : List Inst}

theorem home_ok {h : Home} : site.home r = .ok h ↔ site.layout.home? r = some h := by
  rw [home]
  cases site.layout.home? r with
  | none => simp
  | some h' => simp

theorem slot_range (hp : site.layout.Placed fp w) {off : Int32}
    (h : site.layout.home? r = some (.slot off)) : -2 ^ 30 ≤ off.toInt ∧ off.toInt ≤ 0 := by
  obtain ⟨hlo, hhi⟩ := Layout.slot_bounds hp.fits h
  have hle := hp.fits.locals_le
  omega

variable (env rs) in
theorem load_spec (hp : site.layout.Placed fp w) (h : site.layout.Holds fp w σ s)
    (hparams : site.layout.InRegs σ s) (hcode : site.load dst r = .ok code) (hdst : dst ∈ rs)
    (hscratch : slotScratch ∈ rs) :
    Changes rs s (execs env code s) ∧ (execs env code s).reg dst = σ.val r := by
  rw [load] at hcode
  cases hhome : site.home r with
  | error fault =>
    rw [hhome] at hcode
    exact absurd hcode nofun
  | ok home =>
    rw [hhome] at hcode
    have hr := home_ok.mp hhome
    cases home with
    | slot off =>
      cases hcode
      obtain ⟨hlo, hhi⟩ := slot_range hp hr
      obtain ⟨hc, hval⟩ := loadSlot_spec hlo hhi hdst hscratch
      exact ⟨hc, by rw [hval, h.pointer, h.slot r off hr]⟩
    | param i =>
      cases hcode
      rw [execs_moveReg (Reg.among_subset le_rfl (by omega) (Reg.argReg_mem i)),
        hparams r i hr]
      exact ⟨(Changes.refl rs s).set _ hdst, s.reg_set_self _ _⟩

variable (env rs) in
theorem loadArg_spec (hp : site.layout.Placed fp w) (h : site.layout.Holds fp w σ s)
    (hsaved : site.layout.Saved fp σ s) (hcode : site.loadArg dst r = .ok code) (hdst : dst ∈ rs)
    (hscratch : slotScratch ∈ rs) :
    Changes rs s (execs env code s) ∧ (execs env code s).reg dst = σ.val r := by
  rw [loadArg] at hcode
  cases hhome : site.home r with
  | error fault =>
    rw [hhome] at hcode
    exact absurd hcode nofun
  | ok home =>
    rw [hhome] at hcode
    have hr := home_ok.mp hhome
    cases home with
    | slot off =>
      cases hcode
      obtain ⟨hlo, hhi⟩ := slot_range hp hr
      obtain ⟨hc, hval⟩ := loadSlot_spec hlo hhi hdst hscratch
      exact ⟨hc, by rw [hval, h.pointer, h.slot r off hr]⟩
    | param i =>
      cases hcode
      have hexec := exec_restoreParam env i dst h.pointer
      rw [hsaved r i hr] at hexec
      rw [execs_cons, execs_nil, hexec]
      exact ⟨(Changes.refl rs s).set _ hdst, s.reg_set_self _ _⟩

variable (env) in
theorem related_store (hp : site.layout.Placed fp w) (h : site.layout.Related fp w σ s)
    (hcode : site.store src r = .ok code) (hsrc : src ∈ Reg.among 9 15) :
    site.layout.Related fp w (σ.set r (s.reg src)) (execs env code s) ∧
      Keeps fp s (execs env code s) := by
  rw [store] at hcode
  cases hhome : site.home r with
  | error fault =>
    rw [hhome] at hcode
    exact absurd hcode nofun
  | ok home =>
    rw [hhome] at hcode
    have hr := home_ok.mp hhome
    cases home with
    | slot off =>
      cases hcode
      obtain ⟨hlo, hhi⟩ := slot_range hp hr
      obtain ⟨t, hc, hstore⟩ := storeSlot_spec env hlo hhi
        (Reg.among_subset (Nat.zero_le 9) le_rfl hsrc)
      have ht := h.of_changes (hc.mono (Reg.among_subset (by omega) (by omega)))
      rw [hstore, h.pointer]
      refine ⟨⟨hp.holds_store_slot ht.toHolds hr, ht.params.store_slot hr _, ht.sp⟩, ?_⟩
      refine (Keeps.of_changes (hc.mono (Reg.among_subset_volatile (by omega)))).trans ?_
      exact hp.keeps_store (hp.inside_slot hr) (.inl (Layout.slot_bounds hp.fits hr).2)
    | param i =>
      cases hcode
      have harg : argReg i ∈ Reg.volatile :=
        Reg.among_subset_volatile (by omega) (Reg.argReg_mem i)
      rw [execs_moveReg (Reg.among_subset (Nat.zero_le 9) (by omega) hsrc)]
      have hc : Changes Reg.volatile s (s.set (argReg i) (s.reg src)) :=
        (Changes.refl _ s).set _ harg
      refine ⟨⟨(h.toHolds.set_param hr).of_changes hc, fun q j hq => ?_, ?_⟩, Keeps.of_changes hc⟩
      · by_cases heq : q = r
        · subst heq
          rw [hr, Option.some.injEq, Home.param.injEq] at hq
          rw [← hq, A64.State.reg_set_self, Ir.State.val_set_self]
        · have hne : argReg j ≠ argReg i := fun e =>
            Layout.params_ne hq hr heq (Reg.argReg_injective e)
          rw [A64.State.reg_set_of_ne s _ hne, Ir.State.val_set_of_ne σ _ heq, h.params q j hq]
      · have hne : Reg.sp ≠ argReg i := fun e =>
          Reg.sp_notMem_among 0 7 (e ▸ Reg.argReg_mem i)
        rw [A64.State.reg_set_of_ne s _ hne, h.sp]

/-- A register that holds a result becomes the value of a register while parameters are saved. -/
theorem storeResult_spec (hp : site.layout.Placed fp w) (h : site.layout.Holds fp w σ s)
    (hsaved : site.layout.Saved fp σ s) (hcode : site.storeResult src r = .ok code)
    (hsrc : src ∈ Reg.among 0 15) :
    site.layout.Holds fp w (σ.set r (s.reg src)) (execs env code s) ∧
      site.layout.Saved fp (σ.set r (s.reg src)) (execs env code s) ∧
      Keeps fp s (execs env code s) ∧ (execs env code s).reg .sp = s.reg .sp := by
  rw [storeResult] at hcode
  cases hhome : site.home r with
  | error fault =>
    rw [hhome] at hcode
    exact absurd hcode nofun
  | ok home =>
    rw [hhome] at hcode
    have hr := home_ok.mp hhome
    cases home with
    | slot off =>
      cases hcode
      obtain ⟨hlo, hhi⟩ := slot_range hp hr
      obtain ⟨t, hc, hstore⟩ := storeSlot_spec env hlo hhi hsrc
      have hvol : Changes Reg.volatile s t := hc.mono (Reg.among_subset_volatile (by omega))
      rw [hstore, h.pointer]
      refine ⟨hp.holds_store_slot (h.of_changes hvol) hr,
        hp.saved_store_slot (hsaved.of_mem_eq hc.mem) hr, (Keeps.of_changes hvol).trans ?_,
        hc.reg _ (Reg.sp_notMem_among _ _)⟩
      exact hp.keeps_store (hp.inside_slot hr) (.inl (Layout.slot_bounds hp.fits hr).2)
    | param i =>
      cases hcode
      have hexec := exec_saveParam env i h.pointer
        (Reg.among_subset le_rfl (by omega) hsrc)
      rw [execs_cons, execs_nil, hexec]
      have hinside := Layout.inside_spill (Layout.mem_paramIndices.mpr ⟨r, hr⟩)
      exact ⟨hp.holds_store_spill h hr, hp.saved_store_spill hsaved hr,
        hp.keeps_store hinside (.inr (by omega)), rfl⟩

/-! ## Parameters around a call -/

variable (env) in
/-- Saving some parameters leaves the others where they are. -/
theorem execs_saveParams (hp : site.layout.Placed fp w) {is : List (Fin 8)}
    (his : ∀ i ∈ is, i ∈ site.layout.paramIndices) (h : site.layout.Holds fp w σ s)
    (hparams : site.layout.InRegs σ s) :
    (execs env (is.map fun i => saveParam i (argReg i)) s).reg = s.reg ∧
      site.layout.Holds fp w σ (execs env (is.map fun i => saveParam i (argReg i)) s) ∧
      Keeps fp s (execs env (is.map fun i => saveParam i (argReg i)) s) ∧
      ∀ r i, site.layout.home? r = some (.param i) →
        (i ∈ is ∨ s.mem.read (addr fp (16 + 8 * i.val)) = σ.val r) →
        (execs env (is.map fun i => saveParam i (argReg i)) s).mem.read
          (addr fp (16 + 8 * i.val)) = σ.val r := by
  induction is generalizing s with
  | nil =>
    refine ⟨rfl, h, Keeps.refl fp s, ?_⟩
    rintro r i - (hi | hi)
    · exact absurd hi List.not_mem_nil
    · exact hi
  | cons i is ih =>
    obtain ⟨r, hr⟩ := Layout.mem_paramIndices.mp (his i List.mem_cons_self)
    have hinside := Layout.inside_spill (his i List.mem_cons_self)
    have hexec := exec_saveParam env i h.pointer
      (Reg.among_subset le_rfl (by omega) (Reg.argReg_mem i))
    rw [hparams r i hr] at hexec
    have hstore := hp.holds_store_spill (v := σ.val r) h hr
    rw [Ir.State.set_val_self] at hstore
    simp only [List.map_cons, execs_cons, hexec]
    obtain ⟨hreg, hholds, hkeeps, hread⟩ :=
      ih (fun j hj => his j (List.mem_cons_of_mem i hj)) hstore hparams
    refine ⟨hreg, hholds, (hp.keeps_store hinside (.inr (by omega))).trans hkeeps, ?_⟩
    intro q j hq hj
    refine hread q j hq ?_
    by_cases hji : j = i
    · subst hji
      right
      rw [A64.State.mem_store, Mem.read_write_self, ← hparams r j hr, hparams q j hq]
    · rcases hj with hj | hj
      · exact .inl ((List.mem_cons.mp hj).resolve_left hji)
      · right
        have hne : j.val ≠ i.val := fun e => hji (Fin.ext e)
        have happ : Apart (addr fp (16 + 8 * j.val)) (addr fp (16 + 8 * i.val)) :=
          hp.apart_cells (Layout.inside_spill (Layout.mem_paramIndices.mpr ⟨q, hq⟩)) hinside
            (by omega)
        rw [A64.State.mem_store, Mem.read_write_of_apart happ, hj]

variable (env) in
/-- Every parameter is saved before a call. -/
theorem saveParams_spec (hp : site.layout.Placed fp w) (h : site.layout.Holds fp w σ s)
    (hparams : site.layout.InRegs σ s) :
    (execs env site.saveParams s).reg = s.reg ∧
      site.layout.Holds fp w σ (execs env site.saveParams s) ∧
      site.layout.Saved fp σ (execs env site.saveParams s) ∧
      Keeps fp s (execs env site.saveParams s) := by
  obtain ⟨hreg, hholds, hkeeps, hread⟩ :=
    execs_saveParams env hp (fun i hi => hi) h hparams
  exact ⟨hreg, hholds,
    fun r i hr => hread r i hr (.inl (Layout.mem_paramIndices.mpr ⟨r, hr⟩)), hkeeps⟩

variable (env) in
theorem execs_restoreParams (is : List (Fin 8)) (hfp : s.reg .fp = fp) :
    Changes (Reg.among 0 7) s (execs env (is.map fun i => restoreParam i (argReg i)) s) ∧
      ∀ (i : Fin 8) (v : Word), s.mem.read (addr fp (16 + 8 * i.val)) = v →
        (i ∈ is ∨ s.reg (argReg i) = v) →
        (execs env (is.map fun i => restoreParam i (argReg i)) s).reg (argReg i) = v := by
  induction is generalizing s with
  | nil =>
    refine ⟨Changes.refl _ s, ?_⟩
    rintro i v - (hi | hi)
    · exact absurd hi List.not_mem_nil
    · exact hi
  | cons i is ih =>
    have hc : Changes (Reg.among 0 7) s
        (s.set (argReg i) (s.mem.read (addr fp (16 + 8 * i.val)))) :=
      (Changes.refl _ s).set _ (Reg.argReg_mem i)
    have hexec := exec_restoreParam env i (argReg i) hfp
    simp only [List.map_cons, execs_cons, hexec]
    have hfp' : (s.set (argReg i) (s.mem.read (addr fp (16 + 8 * i.val)))).reg .fp = fp := by
      rw [hc.reg _ fun hmem => Reg.ne_of_mem_among hmem Reg.fp_mem (by omega) rfl, hfp]
    obtain ⟨hchanges, hread⟩ := ih hfp'
    refine ⟨hc.trans hchanges, fun j v hv hj => hread j v hv ?_⟩
    by_cases hji : j = i
    · subst hji
      right
      rw [A64.State.reg_set_self, hv]
    · rcases hj with hj | hj
      · exact .inl ((List.mem_cons.mp hj).resolve_left hji)
      · right
        rw [A64.State.reg_set_of_ne s _ fun e => hji (Reg.argReg_injective e), hj]

variable (env) in
theorem restoreParams_spec (h : site.layout.Holds fp w σ s) (hsaved : site.layout.Saved fp σ s) :
    Changes (Reg.among 0 7) s (execs env site.restoreParams s) ∧
      site.layout.InRegs σ (execs env site.restoreParams s) := by
  obtain ⟨hc, hread⟩ := execs_restoreParams env site.layout.paramIndices h.pointer
  exact ⟨hc, fun r i hr =>
    hread i _ (hsaved r i hr) (.inl (Layout.mem_paramIndices.mpr ⟨r, hr⟩))⟩

end Site
end A64Lowering
