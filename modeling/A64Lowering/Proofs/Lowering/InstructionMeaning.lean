import Mathlib
import A64Lowering.Proofs.Lowering.Encodable
import A64Lowering.Proofs.Lowering.Transfer
import A64Lowering.Proofs.Machine.Frame

/-! # Lowering one instruction preserves its meaning

* `exec_binaryInst`, `exec_immediateInst`, `exec_unaryInst`, `holds_condition`: the machine computes
  what the fragment does.
* `loadArgs_spec`, `call_spec`, `finish_call`: the phases of a call.
* `related_of_emits`: what one instruction emits goes from a state of the fragment to the next, and
  so do its lines inside any code. -/
namespace A64Lowering
set_option autoImplicit false

open A64 Ir

/-! ## Operations -/

section Operations
variable {env : Env} {s : A64.State} {a b : Reg}

theorem get_of_mem {lo hi : ℕ} (h : a ∈ Reg.among lo hi) : s.get a = s.reg a := by
  obtain ⟨n, -, -, rfl⟩ := h
  rfl

theorem exec_binaryInst {lo hi : ℕ} (op : BinaryOp) (ha : a ∈ Reg.among lo hi)
    (hb : b ∈ Reg.among lo hi) :
    exec env s (binaryInst op a b) = s.set a (op.apply (s.reg a) (s.reg b)) := by
  cases op <;> simp only [binaryInst, exec, get_of_mem ha, get_of_mem hb, BinaryOp.apply]

theorem exec_unaryInst {lo hi : ℕ} (op : UnaryOp) (ha : a ∈ Reg.among lo hi) :
    exec env s (unaryInst op a) = s.set a (op.apply (s.reg a)) := by
  cases op with
  | not =>
    simp only [unaryInst, exec, get_of_mem ha, UnaryOp.apply]
    rfl
  | neg => simp only [unaryInst, exec, get_of_mem ha, UnaryOp.apply]

/-- A small immediate takes one instruction instead of two. -/
theorem exec_immediateInst {lo hi : ℕ} {op : BinaryOp} {rhs : Operand} {i : Inst} {n : Int64}
    (ha : a ∈ Reg.among lo hi) (hrhs : rhs = .imm n) (h : immediateInst? op a rhs = some i) :
    exec env s i = s.set a (op.apply (s.reg a) n.toBitVec) := by
  subst hrhs
  unfold immediateInst? at h
  dsimp only at h
  split at h
  · next hn =>
    obtain ⟨hlo, hhi⟩ := hn
    rw [Int64.le_iff_toInt_le] at hlo
    rw [Int64.lt_iff_toInt_lt] at hhi
    have hzero : (0 : Int64).toInt = 0 := rfl
    have hmax : (4096 : Int64).toInt = 4096 := rfl
    have hnat : ((UInt32.ofNat n.toInt.toNat).toNat : ℤ) = n.toInt := by
      rw [UInt32.toNat_ofNat_of_lt' (by show _ < 2 ^ 32; omega)]
      omega
    have hword : BitVec.ofInt 64 n.toInt = n.toBitVec := by
      rw [← Int64.toInt_toBitVec, BitVec.ofInt_toInt]
    cases op with
    | add =>
      cases h
      rw [exec, hnat, addr, hword, get_of_mem ha, BinaryOp.apply]
    | sub =>
      cases h
      rw [exec, hnat, addr, BitVec.ofInt_neg, hword, get_of_mem ha, ← BitVec.sub_eq_add_neg,
        BinaryOp.apply]
    | _ => cases h
  · cases h

theorem execs_symbolAddress {lo hi : ℕ} (ha : a ∈ Reg.among lo hi) (symbol : String) :
    execs env (symbolAddress a symbol) s = s.set a (env.symbol symbol) := by
  rw [symbolAddress, execs_cons, execs_cons, execs_nil, exec, exec, get_of_mem ha,
    A64.State.reg_set_self, page_add_low, A64.State.set_set]

theorem holds_condition (c : CompareOp) (x y : Word) :
    (condition c).holds (Flags.ofSub x y) = c.holds x y := by
  have hlt : ((x - y).msb != BitVec.ssubOverflow x y) = x.slt y := negative_ne_overflow x y
  have hge : ((x - y).msb == BitVec.ssubOverflow x y) = !x.slt y := by
    rw [← hlt, bne, Bool.not_not]
  cases c with
  | eq | ne => rfl
  | lt => exact hlt
  | le =>
    show ((x == y) || ((x - y).msb != BitVec.ssubOverflow x y)) = x.sle y
    rw [hlt, BitVec.sle_eq_slt_or_eq, Bool.or_comm]
  | gt =>
    show (!(x == y) && ((x - y).msb == BitVec.ssubOverflow x y)) = y.slt x
    rw [hge, ← BitVec.sle_eq_not_slt, BitVec.slt_eq_sle_and_ne, Bool.and_comm, bne, Bool.beq_comm]
  | ge =>
    show ((x - y).msb == BitVec.ssubOverflow x y) = y.sle x
    rw [hge, BitVec.sle_eq_not_slt]

theorem offsetAddr_field {base : Word} {index : UInt64} (h : index.toNat < 2 ^ 28) :
    offsetAddr base (fieldOffset index) = base + fieldDistance index := by
  have hint : (fieldOffset index).toInt = (8 * index.toNat : ℕ) := by
    rw [toInt_fieldOffset h]
    omega
  rw [offsetAddr, hint, addr_natCast, fieldDistance]

theorem toBitVec_objectBytes (size : UInt64) :
    (objectBytes size).toBitVec = BitVec.ofNat 64 (8 * size.toNat) := by
  have hsize : size.toInt64.toBitVec = BitVec.ofNat 64 size.toNat := by
    rw [UInt64.toBitVec_toInt64]
    simp
  rw [objectBytes, Int64.toBitVec_mul, hsize, show (8 : Int64).toBitVec = BitVec.ofNat 64 8 from rfl,
    ← BitVec.ofNat_mul, Nat.mul_comm]

end Operations

/-! ## Instructions without a call -/

namespace Site
variable {env : Env} {site : Site} {fp : Word} {w : World} {σ : Ir.State} {s t : A64.State}
  {a b : Reg} {code rcode result : List Inst}

variable (env) in
theorem fetches_spec (rs : Set Reg) {operand : Operand} (hp : site.layout.Placed fp w)
    (h : site.layout.Related fp w σ s) (hcode : site.Fetches a operand code) (ha : a ∈ rs)
    (hscratch : slotScratch ∈ rs) :
    Changes rs s (execs env code s) ∧ (execs env code s).reg a = σ.operand operand := by
  cases hcode with
  | reg hload => exact load_spec env _ hp h.toHolds h.params hload ha hscratch
  | imm n =>
    rw [execs_loadImm]
    exact ⟨(Changes.refl rs s).set _ ha, s.reg_set_self _ _⟩

theorem pair_subset (ha : a ∈ Reg.among 9 15) : {a, slotScratch} ⊆ Reg.among 9 17 := by
  rintro r (rfl | rfl)
  · exact Reg.among_subset le_rfl (by omega) ha
  · exact Reg.among_subset (by omega) (by omega) Reg.slotScratch_mem

variable (env) in
theorem one_operand {operand : Operand} (hp : site.layout.Placed fp w)
    (h : site.layout.Related fp w σ s) (ha : a ∈ Reg.among 9 15)
    (hcode : site.Fetches a operand code) :
    Changes (Reg.among 9 17) s (execs env code s) ∧
      (execs env code s).reg a = σ.operand operand := by
  obtain ⟨hc, hval⟩ := fetches_spec env {a, slotScratch} hp h hcode
    (.inl rfl) (.inr rfl)
  exact ⟨hc.mono (pair_subset ha), hval⟩

variable (env) in
theorem two_operands {lhs : VReg} {rhs : Operand} (hp : site.layout.Placed fp w)
    (h : site.layout.Related fp w σ s) (ha : a ∈ Reg.among 9 15) (hb : b ∈ Reg.among 9 15)
    (hne : b ≠ a) (hcode : site.load a lhs = .ok code) (hrcode : site.Fetches b rhs rcode) :
    Changes (Reg.among 9 17) s (execs env (code ++ rcode) s) ∧
      (execs env (code ++ rcode) s).reg a = σ.val lhs ∧
      (execs env (code ++ rcode) s).reg b = σ.operand rhs := by
  obtain ⟨hc, hval⟩ := one_operand env hp h ha (.reg hcode)
  obtain ⟨hc', hval'⟩ := fetches_spec env {b, slotScratch} hp (h.of_changes hc)
    hrcode (.inl rfl) (.inr rfl)
  rw [execs_append]
  refine ⟨hc.trans (hc'.mono (pair_subset hb)), ?_, hval'⟩
  rw [hc'.reg a, hval]
  · rfl
  · rintro (rfl | rfl)
    · exact hne rfl
    · exact Reg.ne_of_mem_among ha Reg.slotScratch_mem (by omega) rfl

theorem related_finish {target : VReg} {v : Word} (hp : site.layout.Placed fp w)
    (h : site.layout.Related fp w σ s) (hc : Changes (Reg.among 9 17) s t)
    (ha : a ∈ Reg.among 9 15) (hval : t.reg a = v) (hresult : site.store a target = .ok result) :
    site.layout.Related fp w (σ.set target v) (execs env result t) ∧
      Keeps fp s (execs env result t) := by
  obtain ⟨hrelated, hkeeps⟩ := related_store env hp (h.of_changes hc) hresult ha
  rw [hval] at hrelated
  exact ⟨hrelated,
    (Keeps.of_changes (hc.mono (Reg.among_subset_volatile le_rfl))).trans hkeeps⟩

theorem related_store_data {address v : Word} {σ' : Ir.State} (hp : site.layout.Placed fp w)
    (h : site.layout.Related fp w σ s) (hc : Changes (Reg.among 9 17) s t)
    (hrun : σ.store? w address v = some σ') :
    site.layout.Related fp w σ' (t.store address v) ∧ Keeps fp s (t.store address v) := by
  rw [Ir.State.store?] at hrun
  split at hrun
  · next hcell =>
    cases hrun
    have ht := h.of_changes hc
    exact ⟨⟨hp.holds_store_data ht.toHolds hcell, ht.params, ht.sp⟩,
      (Keeps.of_changes (hc.mono (Reg.among_subset_volatile le_rfl))).trans
        (hp.keeps_store_data hcell)⟩
  · exact absurd hrun nofun

/-- After work on temporaries, a word of the data becomes the value of the target. -/
theorem related_load_data {target : VReg} {address : Word} {σ' : Ir.State}
    (hp : site.layout.Placed fp w) (h : site.layout.Related fp w σ s)
    (hc : Changes (Reg.among 9 17) s t) (ha : a ∈ Reg.among 9 15)
    (hrun : (σ.load? w address).map (σ.set target) = some σ')
    (hresult : site.store a target = .ok result) :
    site.layout.Related fp w σ' (execs env result (t.set a (t.mem.read address))) ∧
      Keeps fp s (execs env result (t.set a (t.mem.read address))) := by
  rw [Ir.State.load?] at hrun
  split at hrun
  · next hcell =>
    cases hrun
    have hread := (h.of_changes hc).read_data hcell
    refine related_finish hp h
      (hc.set (t.mem.read address) (Reg.among_subset le_rfl (by omega) ha)) ha ?_ hresult
    rw [A64.State.reg_set_self, hread]
  · exact absurd hrun nofun

/-! ## Calls -/

variable (env) in
/-- The arguments come into the first argument registers, whatever these held. -/
theorem loadArgs_spec (hp : site.layout.Placed fp w) {args : List VReg} {index : ℕ}
    (hlength : index + args.length ≤ 8) (h : site.layout.Holds fp w σ s)
    (hsaved : site.layout.Saved fp σ s) (hcode : site.loadArgs index args = .ok code) :
    Changes (Reg.among index 7 ∪ Reg.among 16 16) s (execs env code s) ∧
      ∀ k (hk : k < args.length),
        (execs env code s).reg (.x (.ofNat (index + k))) = σ.val args[k] := by
  -- later arguments go to higher registers, so the earlier ones stay
  induction args generalizing index s code with
  | nil =>
    cases hcode
    exact ⟨Changes.refl _ s, fun k hk => absurd hk (Nat.not_lt_zero k)⟩
  | cons arg args ih =>
    rw [List.length_cons] at hlength
    obtain ⟨first, rest, hfirst, hrest, rfl⟩ := Site.loadArgs_ok hcode
    have hnum : ∀ k, k < 8 → (UInt8.ofNat k).toNat = k := fun k hk =>
      UInt8.toNat_ofNat_of_lt' (by show k < 256; omega)
    have hindex : Reg.x (.ofNat index) ∈ Reg.among index index := by
      rw [Reg.x_mem_among, hnum index (by omega)]
      omega
    obtain ⟨hc, hval⟩ := loadArg_spec env (Reg.among index index ∪ Reg.among 16 16) hp h
      hsaved hfirst (.inl hindex) (.inr Reg.slotScratch_mem)
    have hvol : Changes Reg.volatile s (execs env first s) := by
      refine hc.mono (Set.union_subset ?_ ?_) <;> exact Reg.among_subset_volatile (by omega)
    obtain ⟨hc', hval'⟩ :=
      ih (by omega) (h.of_changes hvol) (hsaved.of_mem_eq hc.mem) hrest
    rw [execs_append]
    refine ⟨?_, fun k hk => ?_⟩
    · refine (hc.mono ?_).trans (hc'.mono ?_) <;>
        refine Set.union_subset_union_left _ (Reg.among_subset ?_ ?_) <;> omega
    · cases k with
      | zero =>
        rw [Nat.add_zero, hc'.reg, hval, List.getElem_cons_zero]
        rintro (hmem | hmem)
        · exact Reg.ne_of_mem_among hindex hmem (by omega) rfl
        · exact Reg.ne_of_mem_among hindex hmem (by omega) rfl
      | succ k =>
        have hk' : k < args.length := by simpa using hk
        have heq := hval' k hk'
        rw [List.getElem_cons_succ, ← heq]
        congr 3
        omega

theorem prefix_argWords {args : List Word} (hlength : args.length ≤ 8)
    (h : ∀ k (hk : k < args.length), s.reg (.x (.ofNat k)) = args[k]) : args <+: argWords s := by
  rw [List.prefix_iff_eq_take]
  refine List.ext_getElem ?_ fun k hk hk' => ?_
  · rw [argWords, List.length_take, List.length_ofFn]
    omega
  · simp only [List.getElem_take, argWords, List.getElem_ofFn, argReg]
    rw [h k hk]

/-- What a call leaves: the answer, and the parameters still saved. -/
theorem call_spec {room : ℕ} {routine : String} {args : List Word} (hp : site.layout.Placed fp w)
    (h : site.layout.Holds fp w σ s) (hsaved : site.layout.Saved fp σ s)
    (hsp : s.reg .sp = addr fp (-(site.layout.frame.localsSize.toNat + room)))
    (hargs : args <+: argWords s) (hans : Answers env site.layout fp w σ room routine args) :
    site.layout.Holds fp w (σ.call w routine args).2 (A64.call env routine s) ∧
      site.layout.Saved fp (σ.call w routine args).2 (A64.call env routine s) ∧
      Keeps fp s (A64.call env routine s) ∧ (A64.call env routine s).reg .sp = s.reg .sp ∧
      (A64.call env routine s).reg resultReg = (σ.call w routine args).1 := by
  obtain ⟨hresult, -, -, hsp', -⟩ := hans s h hsp hargs
  exact ⟨hp.holds_call h hsp hargs hans, hsaved.call h hsp hargs hans,
    Layout.keeps_call h hsp hargs hans, hsp', hresult⟩

variable (env) in
/-- After a call the result goes to the target, if there is one, and the parameters come back. -/
theorem finish_call {target : Option VReg} (hp : site.layout.Placed fp w)
    (h : site.layout.Holds fp w σ s) (hsaved : site.layout.Saved fp σ s)
    (hsp : s.reg .sp = addr fp (-site.layout.frame.localsSize.toNat))
    (hresult : site.storeTarget target = .ok result) :
    site.layout.Related fp w (target.elim σ (σ.set · (s.reg resultReg)))
        (execs env (result ++ site.restoreParams) s) ∧
      Keeps fp s (execs env (result ++ site.restoreParams) s) := by
  have hstored : site.layout.Holds fp w (target.elim σ (σ.set · (s.reg resultReg)))
        (execs env result s) ∧
      site.layout.Saved fp (target.elim σ (σ.set · (s.reg resultReg))) (execs env result s) ∧
      Keeps fp s (execs env result s) ∧ (execs env result s).reg .sp = s.reg .sp := by
    cases target with
    | none =>
      cases hresult
      exact ⟨h, hsaved, Keeps.refl fp s, rfl⟩
    | some r =>
      exact storeResult_spec hp h hsaved hresult (Reg.x_mem_among.mpr ⟨by decide, by decide⟩)
  obtain ⟨hholds, hsaved', hkeeps, hsp'⟩ := hstored
  obtain ⟨hc, hparams⟩ := restoreParams_spec env hholds hsaved'
  have hvol : Changes Reg.volatile _ _ := hc.mono (Reg.among_subset_volatile (by omega))
  rw [execs_append]
  refine ⟨⟨hholds.of_changes hvol, hparams, ?_⟩, hkeeps.trans (Keeps.of_changes hvol)⟩
  rw [hc.reg _ (Reg.sp_notMem_among _ _), hsp', hsp]

/-- Moving the stack pointer by nothing takes no instruction. -/
theorem execs_reserve (size : UInt32) :
    execs env (if 0 < size then [.subImm .sp .sp size] else []) s
      = s.set .sp (addr (s.reg .sp) (-size.toNat)) := by
  split
  · rfl
  · next hzero =>
    rw [toNat_eq_zero hzero, Nat.cast_zero, neg_zero, addr_zero, A64.State.set_reg_self, execs_nil]

theorem execs_giveBack (size : UInt32) :
    execs env (if 0 < size then [.addImm .sp .sp size] else []) s
      = s.set .sp (addr (s.reg .sp) size.toNat) := by
  split
  · rfl
  · next hzero =>
    rw [toNat_eq_zero hzero, Nat.cast_zero, addr_zero, A64.State.set_reg_self, execs_nil]

theorem related_callFunction {target : Option VReg} {function : String} {args : List VReg}
    (hp : site.layout.Placed fp w) (h : site.layout.Related fp w σ s)
    (hcode : site.callFunction target function args = .ok code)
    (hans : Answers env site.layout fp w σ (homeAreaSize args.length).toNat function
      (args.map σ.val)) :
    site.layout.Related fp w
        (target.elim (σ.call w function (args.map σ.val)).2
          ((σ.call w function (args.map σ.val)).2.set · (σ.call w function (args.map σ.val)).1))
        (execs env code s) ∧
      Keeps fp s (execs env code s) := by
  obtain ⟨arguments, result, hlength, harguments, hresult, rfl⟩ := callFunction_ok hcode
  set home := homeAreaSize args.length
  have hspvol : ∀ (t : A64.State) v, Changes Reg.volatile t (t.set .sp v) := fun t v =>
    (Changes.refl _ t).set v (.inl rfl)
  obtain ⟨hreg₁, hholds₁, hsaved₁, hkeeps₁⟩ :=
    saveParams_spec env hp h.toHolds h.params
  set s₁ := execs env site.saveParams s with hs₁
  have hsp₁ : s₁.reg .sp = addr fp (-site.layout.frame.localsSize.toNat) := by rw [hreg₁, h.sp]
  set s₂ := s₁.set .sp (addr (s₁.reg .sp) (-home.toNat)) with hs₂
  have hholds₂ := hholds₁.of_changes (hspvol s₁ (addr (s₁.reg .sp) (-home.toNat)))
  have hsaved₂ : site.layout.Saved fp σ s₂ := hsaved₁.of_mem_eq rfl
  obtain ⟨hc₃, hargs₃⟩ := loadArgs_spec env hp (by omega) hholds₂ hsaved₂ harguments
  have hvol₃ : Changes Reg.volatile s₂ (execs env arguments s₂) := by
    refine hc₃.mono (Set.union_subset ?_ ?_) <;> exact Reg.among_subset_volatile (by omega)
  set s₃ := execs env arguments s₂ with hs₃
  have hprefix : args.map σ.val <+: argWords s₃ := by
    refine prefix_argWords (by rwa [List.length_map]) fun k hk => ?_
    have hk' : k < args.length := by simpa using hk
    rw [List.getElem_map, ← hargs₃ k hk', Nat.zero_add]
  have hsp₃ : s₃.reg .sp = addr fp (-(site.layout.frame.localsSize.toNat + home.toNat)) := by
    have hnotMem : Reg.sp ∉ Reg.among 0 7 ∪ Reg.among 16 16 := by simp
    rw [hc₃.reg _ hnotMem, A64.State.reg_set_self, hsp₁, addr_addr, neg_add]
  obtain ⟨hholds₄, hsaved₄, hkeeps₄, hsp₄, hresult₄⟩ :=
    call_spec hp (hholds₂.of_changes hvol₃) (hsaved₂.of_mem_eq hc₃.mem) hsp₃ hprefix hans
  set s₄ := A64.call env function s₃ with hs₄
  set s₅ := s₄.set .sp (addr (s₄.reg .sp) home.toNat) with hs₅
  have hsp₅ : s₅.reg .sp = addr fp (-site.layout.frame.localsSize.toNat) := by
    rw [hs₅, A64.State.reg_set_self, hsp₄, hsp₃, addr_addr, neg_add, neg_add_cancel_right]
  have hx₅ : s₅.reg resultReg = s₄.reg resultReg := s₄.reg_set_of_ne _ (by decide)
  obtain ⟨hrelated, hkeeps⟩ := finish_call env hp
    (hholds₄.of_changes (hspvol s₄ _)) (hsaved₄.of_mem_eq rfl) hsp₅ hresult
  have hexecs : execs env (site.saveParams ++ (if 0 < home then [.subImm .sp .sp home] else [])
      ++ arguments ++ [.bl function] ++ (if 0 < home then [.addImm .sp .sp home] else [])
      ++ result ++ site.restoreParams) s = execs env (result ++ site.restoreParams) s₅ := by
    simp only [execs_append, execs_reserve, execs_giveBack, execs_cons, execs_nil, exec]
    rfl
  rw [hexecs]
  rw [hx₅, hresult₄] at hrelated
  refine ⟨hrelated, ?_⟩
  exact hkeeps₁.trans ((Keeps.of_changes (hspvol s₁ _)).trans ((Keeps.of_changes hvol₃).trans
    (hkeeps₄.trans ((Keeps.of_changes (hspvol s₄ _)).trans hkeeps))))

/-- A call of the runtime needs no home area. -/
theorem related_runtime {target : Option VReg} {routine : String} {args : List Word}
    {setup : List Inst} (hp : site.layout.Placed fp w) (h : site.layout.Related fp w σ s)
    (hc : Changes (Reg.among 0 17) (execs env site.saveParams s)
      (execs env setup (execs env site.saveParams s)))
    (hargs : args <+: argWords (execs env setup (execs env site.saveParams s)))
    (hans : Answers env site.layout fp w σ 0 routine args)
    (hresult : site.storeTarget target = .ok result) :
    site.layout.Related fp w
        (target.elim (σ.call w routine args).2
          ((σ.call w routine args).2.set · (σ.call w routine args).1))
        (execs env (site.saveParams ++ setup ++ [.bl routine] ++ result ++ site.restoreParams) s) ∧
      Keeps fp s
        (execs env (site.saveParams ++ setup ++ [.bl routine] ++ result ++ site.restoreParams) s) := by
  obtain ⟨hreg, hholds, hsaved, hkeeps⟩ := saveParams_spec env hp h.toHolds h.params
  have hvol := hc.mono (Reg.among_subset_volatile le_rfl)
  have hsp : (execs env setup (execs env site.saveParams s)).reg .sp
      = addr fp (-site.layout.frame.localsSize.toNat) := by
    rw [hc.reg _ (Reg.sp_notMem_among _ _), hreg, h.sp]
  obtain ⟨hholds', hsaved', hkeeps', hsp', hresult'⟩ :=
    call_spec hp (hholds.of_changes hvol) (hsaved.of_mem_eq hc.mem) (by simpa using hsp) hargs hans
  obtain ⟨hrelated, hkeeps''⟩ :=
    finish_call env hp hholds' hsaved' (hsp'.trans hsp) hresult
  rw [hresult'] at hrelated
  have hexecs : execs env (site.saveParams ++ setup ++ [.bl routine] ++ result
      ++ site.restoreParams) s = execs env (result ++ site.restoreParams)
        (A64.call env routine (execs env setup (execs env site.saveParams s))) := by
    simp only [execs_append, execs_cons, execs_nil, exec]
  rw [hexecs]
  exact ⟨hrelated, hkeeps.trans ((Keeps.of_changes hvol).trans (hkeeps'.trans hkeeps''))⟩

theorem related_new {target : VReg} {size : UInt64} {routine : String}
    (hp : site.layout.Placed fp w) (h : site.layout.Related fp w σ s)
    (hresult : site.storeResult resultReg target = .ok result)
    (hans : Answers env site.layout fp w σ 0 routine [BitVec.ofNat 64 (8 * size.toNat)]) :
    site.layout.Related fp w
        ((σ.call w routine [BitVec.ofNat 64 (8 * size.toNat)]).2.set target
          (σ.call w routine [BitVec.ofNat 64 (8 * size.toNat)]).1)
        (execs env (site.saveParams ++ loadImm resultReg (objectBytes size) ++ [.bl routine]
          ++ result ++ site.restoreParams) s) ∧
      Keeps fp s
        (execs env (site.saveParams ++ loadImm resultReg (objectBytes size) ++ [.bl routine]
          ++ result ++ site.restoreParams) s) := by
  have hx : resultReg ∈ Reg.among 0 17 := Reg.x_mem_among.mpr ⟨by decide, by decide⟩
  have htarget : site.storeTarget (some target) = .ok result := hresult
  refine related_runtime hp h ?_ ?_ hans htarget
  · rw [execs_loadImm]
    exact (Changes.refl _ _).set _ hx
  · rw [execs_loadImm, toBitVec_objectBytes]
    refine prefix_argWords (by simp) fun k hk => ?_
    obtain rfl : k = 0 := by simpa using hk
    exact A64.State.reg_set_self _ _ _

theorem related_delete {source : VReg} {routine : String} (hp : site.layout.Placed fp w)
    (h : site.layout.Related fp w σ s) (hcode : site.load (.x 0) source = .ok code)
    (hans : Answers env site.layout fp w σ 0 routine [σ.val source]) :
    site.layout.Related fp w (σ.call w routine [σ.val source]).2
        (execs env (site.saveParams ++ code ++ [.bl routine] ++ site.restoreParams) s) ∧
      Keeps fp s (execs env (site.saveParams ++ code ++ [.bl routine] ++ site.restoreParams) s) := by
  obtain ⟨hreg, hholds, -, -⟩ := saveParams_spec env hp h.toHolds h.params
  have hparams : site.layout.InRegs σ (execs env site.saveParams s) := fun r i hr => by
    rw [hreg, h.params r i hr]
  obtain ⟨hc, hval⟩ := load_spec env (Reg.among 0 17) hp hholds hparams hcode
    (Reg.x_mem_among.mpr ⟨by decide, by decide⟩)
    (Reg.among_subset (by omega) (by omega) Reg.slotScratch_mem)
  have hargs : [σ.val source] <+: argWords (execs env code (execs env site.saveParams s)) := by
    refine prefix_argWords (by simp) fun k hk => ?_
    obtain rfl : k = 0 := by simpa using hk
    exact hval
  have hcall := related_runtime hp h hc hargs hans (rfl : site.storeTarget none = .ok [])
  rwa [List.append_nil] at hcall

theorem related_print {source : VReg} {routine : String} (hp : site.layout.Placed fp w)
    (h : site.layout.Related fp w σ s) (hcode : site.load (.x 1) source = .ok code)
    (hsymbol : env.symbol intFormatLabel = w.symbol intFormatLabel)
    (hans : Answers env site.layout fp w σ 0 routine [w.symbol intFormatLabel, σ.val source]) :
    site.layout.Related fp w (σ.call w routine [w.symbol intFormatLabel, σ.val source]).2
        (execs env (site.saveParams ++ code ++ symbolAddress (.x 0) intFormatLabel
          ++ [.bl routine] ++ site.restoreParams) s) ∧
      Keeps fp s
        (execs env (site.saveParams ++ code ++ symbolAddress (.x 0) intFormatLabel
          ++ [.bl routine] ++ site.restoreParams) s) := by
  have hx : Reg.x 0 ∈ Reg.among 0 17 := Reg.x_mem_among.mpr ⟨by decide, by decide⟩
  obtain ⟨hreg, hholds, -, -⟩ := saveParams_spec env hp h.toHolds h.params
  have hparams : site.layout.InRegs σ (execs env site.saveParams s) := fun r i hr => by
    rw [hreg, h.params r i hr]
  obtain ⟨hc, hval⟩ := load_spec env (Reg.among 0 17) hp hholds hparams hcode
    (Reg.x_mem_among.mpr ⟨by decide, by decide⟩)
    (Reg.among_subset (by omega) (by omega) Reg.slotScratch_mem)
  have hsetup : execs env (code ++ symbolAddress (.x 0) intFormatLabel)
      (execs env site.saveParams s)
      = (execs env code (execs env site.saveParams s)).set (.x 0) (w.symbol intFormatLabel) := by
    rw [execs_append, execs_symbolAddress hx, hsymbol]
  have hargs : [w.symbol intFormatLabel, σ.val source] <+: argWords
      (execs env (code ++ symbolAddress (.x 0) intFormatLabel)
        (execs env site.saveParams s)) := by
    rw [hsetup]
    refine prefix_argWords (by simp) fun k hk => ?_
    rw [List.length_cons, List.length_singleton] at hk
    interval_cases k
    · exact A64.State.reg_set_self _ _ _
    · exact (A64.State.reg_set_of_ne _ _ (by decide)).trans hval
  have hcall := related_runtime hp h
    (by rw [hsetup]; exact hc.set _ hx) hargs hans (rfl : site.storeTarget none = .ok [])
  rwa [List.append_nil, ← List.append_assoc] at hcall

/-! ## Every instruction -/

/-- What an instruction emits goes from a state of the fragment to the next. -/
theorem related_of_emits {inst : Instruction} {σ' : Ir.State} (hp : site.layout.Placed fp w)
    (hsymbol : ∀ name, env.symbol name = w.symbol name)
    (hruntime : w.runtime = site.settings.runtime) (h : site.layout.Related fp w σ s)
    (hemits : site.Emits inst code) (hsteers : inst.steers = false)
    (hindex : ∀ i, inst.index? = some i → i.toNat < 2 ^ 28)
    (hans : ∀ routine args, inst.call? w σ = some (routine, args) →
      Answers env site.layout fp w σ inst.homeArea routine args)
    (hrun : inst.run w σ = some σ') :
    site.layout.Related fp w σ' (execs env code s) ∧ Keeps fp s (execs env code s) := by
  cases hemits with
  | mov ha hcode hresult =>
    cases hrun
    obtain ⟨hc, hval⟩ := one_operand env hp h ha hcode
    rw [execs_append]
    exact related_finish hp h hc ha hval hresult
  | @binaryImm op _ _ rhs a i code result ha hcode hi hresult =>
    cases hrun
    obtain ⟨hc, hval⟩ := one_operand env hp h ha (.reg hcode)
    cases rhs with
    | reg r => exact absurd hi nofun
    | imm n =>
      rw [execs_append, execs_append, execs_cons, execs_nil, exec_immediateInst ha rfl hi, hval]
      exact related_finish hp h (hc.set _ (Reg.among_subset le_rfl (by omega) ha)) ha
        (A64.State.reg_set_self _ _ _) hresult
  | @binary op _ _ _ a b code rcode result ha hb hne hcode hrcode hresult =>
    cases hrun
    obtain ⟨hc, hval, hval'⟩ := two_operands env hp h ha hb hne hcode hrcode
    rw [execs_append, ← List.append_assoc, execs_append, execs_cons, execs_nil,
      exec_binaryInst op ha hb, hval, hval']
    exact related_finish hp h (hc.set _ (Reg.among_subset le_rfl (by omega) ha)) ha
      (A64.State.reg_set_self _ _ _) hresult
  | @unary op _ _ a code result ha hcode hresult =>
    cases hrun
    obtain ⟨hc, hval⟩ := one_operand env hp h ha (.reg hcode)
    rw [execs_append, execs_append, execs_cons, execs_nil, exec_unaryInst op ha, hval]
    exact related_finish hp h (hc.set _ (Reg.among_subset le_rfl (by omega) ha)) ha
      (A64.State.reg_set_self _ _ _) hresult
  | @compare cond _ _ _ a b code rcode result ha hb hne hcode hrcode hresult =>
    cases hrun
    obtain ⟨hc, hval, hval'⟩ := two_operands env hp h ha hb hne hcode hrcode
    rw [execs_append, execs_append, execs_cons, execs_cons, execs_nil, exec, exec,
      get_of_mem ha, get_of_mem hb, hval, hval', holds_condition]
    exact related_finish hp h
      ((hc.flags _).set _ (Reg.among_subset le_rfl (by omega) ha)) ha
      (A64.State.reg_set_self _ _ _) hresult
  | @loadGlobal _ name a result ha hresult =>
    rw [execs_append, execs_append, execs_symbolAddress ha, execs_cons, execs_nil, exec,
      get_of_mem ha, A64.State.reg_set_self, offsetAddr, Int32.toInt_zero, addr_zero, hsymbol]
    exact related_load_data hp h
      ((Changes.refl _ s).set _ (Reg.among_subset le_rfl (by omega) ha)) ha hrun hresult
  | @storeGlobal source name a b code ha hb hne hcode =>
    obtain ⟨hc, hval⟩ := one_operand env hp h ha (.reg hcode)
    rw [execs_append, execs_append, execs_symbolAddress hb, execs_cons, execs_nil, exec,
      get_of_mem ha, get_of_mem hb, A64.State.reg_set_self, A64.State.reg_set_of_ne _ _ hne.symm,
      hval, offsetAddr, Int32.toInt_zero, addr_zero, hsymbol]
    exact related_store_data hp h (hc.set _ (Reg.among_subset le_rfl (by omega) hb)) hrun
  | @loadField _ base _ index a code result ha hcode hresult =>
    obtain ⟨hc, hval⟩ := one_operand env hp h ha (.reg hcode)
    rw [execs_append, execs_append, execs_cons, execs_nil, exec, get_of_mem ha, hval,
      offsetAddr_field (hindex index rfl)]
    exact related_load_data hp h hc ha hrun hresult
  | @storeField source base _ index a b code bcode ha hb hne hcode hbcode =>
    obtain ⟨hc, hval, hval'⟩ := two_operands env hp h ha hb hne hcode (.reg hbcode)
    rw [execs_append, execs_cons, execs_nil, exec, get_of_mem ha, get_of_mem hb, hval, hval']
    rw [show σ.operand (.reg base) = σ.val base from rfl, offsetAddr_field (hindex index rfl)]
    exact related_store_data hp h hc hrun
  | new hresult =>
    cases hrun
    have ha := hans _ _ rfl
    rw [hruntime] at ha ⊢
    exact related_new hp h hresult ha
  | delete hcode =>
    cases hrun
    have ha := hans _ _ rfl
    rw [hruntime] at ha ⊢
    exact related_delete hp h hcode ha
  | print hcode =>
    cases hrun
    have ha := hans _ _ rfl
    rw [hruntime] at ha ⊢
    exact related_print hp h hcode (hsymbol intFormatLabel) ha
  | call hcode =>
    cases hrun
    obtain ⟨-, -, hlength, -⟩ := callFunction_ok hcode
    refine related_callFunction hp h hcode ?_
    rw [homeAreaSize_toNat hlength]
    exact hans _ _ rfl
  | _ => exact absurd hsteers Bool.noConfusion

theorem reaches_annotation (env : Env) (code rest : List Line) (site : Site) (inst : Instruction)
    (s : A64.State) :
    A64.Reaches env code (site.annotation inst ++ rest, s) (rest, s) :=
  reaches_comments (fun _ => comment_of_annotationLine) rest s

end Site

/-! ## Lines -/

/-- For every fragment with a layout, every pool of temporaries and every instruction that does not
steer: from related states, the lines of the instruction run through to a state related to the one
after the instruction, whatever code they stand in. Stack pointer, frame pointer, callee-saved
registers and frame record are as before. -/
theorem lower_preserves_meaning {frag : Fragment} {layout : Layout} {settings : Settings}
    {globals : List String} {work after : Workspace} {inst : Instruction} {lines : List Line}
    {env : Env} {w : World} {fp : Word} {σ σ' : Ir.State} {s : A64.State}
    (hlayout : Layout.ofFragment frag = .ok layout) (hpool : work.pool.Temporaries)
    (hsteers : inst.steers = false)
    (hindex : ∀ index, inst.index? = some index → index.toNat < 2 ^ 28)
    (hlower : Scratch.Yields ((layout.site settings globals frag).lower inst) work lines after)
    (hsymbol : ∀ name, env.symbol name = w.symbol name) (hruntime : w.runtime = settings.runtime)
    (hdata : ∀ b ∈ layout.area fp, w.data b = false)
    (hans : ∀ routine args, inst.call? w σ = some (routine, args) →
      Answers env layout fp w σ inst.homeArea routine args)
    (hrelated : layout.Related fp w σ s) (hrun : inst.run w σ = some σ') :
    ∃ s', layout.Related fp w σ' s' ∧ Keeps fp s s' ∧
      ∀ code rest, A64.Reaches env code (lines ++ rest, s) (rest, s') := by
  have hp : layout.Placed fp w := ⟨Layout.fits_of_ofFragment hlayout, hdata⟩
  obtain ⟨⟨code, hprints, rfl⟩, -⟩ := Site.prints_of_lower hpool hlower
  cases hprints with
  | label name => exact absurd hsteers Bool.noConfusion
  | code hemits =>
    obtain ⟨hrelated', hkeeps⟩ := Site.related_of_emits hp hsymbol hruntime hrelated
      hemits hsteers hindex hans hrun
    refine ⟨_, hrelated', hkeeps, fun whole rest => ?_⟩
    rw [List.append_assoc]
    exact (Site.reaches_annotation env whole _ _ inst s).trans
      (reaches_execs (falls_of_emits hp.fits hemits hsteers) rest s)

/-! ## A call -/

/-- A function that passes its argument on. -/
def passOn : Fragment :=
  ⟨"pass_on", [⟨0⟩], [.call (some ⟨1⟩) "inc" [⟨0⟩], .ret (some ⟨1⟩)]⟩

def passOnLayout : Layout := ⟨[⟨0⟩], [⟨1⟩], ⟨8, 16⟩, by decide⟩

theorem passOnLayout_eq : Layout.ofFragment passOn = .ok passOnLayout := rfl

/-- A frame with one slot. -/
def incFrame : A64.Frame := ⟨8, 16⟩

def incWork : List Inst :=
  [.mov (.x 9) (.x 0), .addImm (.x 9) (.x 9) 1, .str (.x 9) .fp (-8), .ldr (.x 0) .fp (-8)]

/-- The code of a function that returns the word after its argument. Its frame record and its slot
are below the stack pointer of its caller. -/
def incCode : List Inst := incFrame.prologue ++ incWork ++ incFrame.epilogue

theorem execs_incWork (env : Env) (t : A64.State) :
    execs env incWork t
      = ((t.set (.x 9) (t.reg (.x 0) + 1)).store (addr (t.reg .fp) (-8)) (t.reg (.x 0) + 1)).set
          (.x 0) (t.reg (.x 0) + 1) := by
  have hget : ∀ u : A64.State, u.get .fp = u.reg .fp := fun _ => rfl
  have hone : addr (t.reg (.x 0)) (1 : UInt32).toNat = t.reg (.x 0) + 1 := addr_natCast _ _
  have hadd : exec env (exec env t (.mov (.x 9) (.x 0))) (.addImm (.x 9) (.x 9) 1)
      = t.set (.x 9) (t.reg (.x 0) + 1) := by
    rw [exec, exec, A64.State.get_x, A64.State.get_x, A64.State.reg_set_self, A64.State.set_set,
      hone]
  have hfp : (t.set (.x 9) (t.reg (.x 0) + 1)).reg .fp = t.reg .fp := t.reg_set_of_ne _ (by decide)
  rw [incWork, execs_cons, execs_cons, execs_cons, execs_cons, execs_nil, hadd, exec, exec, hget,
    hget, A64.State.get_x, A64.State.reg_store, hfp, A64.State.reg_set_self, A64.State.mem_store,
    Mem.read_write_self]
  rfl

/-- The function keeps all memory but 24 bytes below the stack pointer. -/
theorem incCode_spec (env : Env) (s : A64.State) :
    (execs env incCode s).reg (.x 0) = s.reg (.x 0) + 1 ∧
      (execs env incCode s).reg .sp = s.reg .sp ∧
      (∀ r ∈ Reg.among 19 29, (execs env incCode s).reg r = s.reg r) ∧
      ∀ b ∉ Area (s.reg .sp) (-24) 0, (execs env incCode s).mem b = s.mem b := by
  have hopened := opened_prologue env incFrame s
  set t := execs env incFrame.prologue s with ht
  set fp := addr (s.reg .sp) (-16) with hfp
  have hwork := execs_incWork env t
  rw [hopened.pointer, hopened.reg (.x 0) (by decide) (by decide)] at hwork
  set v := s.reg (.x 0) + 1 with hv
  set u := ((t.set (.x 9) v).store (addr fp (-8)) v).set (.x 0) v with hu
  have hreg : ∀ r, r ≠ .x 0 → r ≠ .x 9 → u.reg r = t.reg r := by
    intro r h h'
    rw [hu, A64.State.reg_set_of_ne _ v h, A64.State.reg_store, t.reg_set_of_ne v h']
  have hrecord : ∀ b ∈ Area fp 0 16, u.mem b = t.mem b := by
    rintro b ⟨x, hlo, hhi, rfl⟩
    refine Mem.write_of_le ?_
    rw [toNat_addr_sub]
    omega
  have hclosed := hopened.closed (hreg .sp (by decide) (by decide)) hrecord env
  have hrun : execs env incCode s = execs env incFrame.epilogue u := by
    rw [incCode, execs_append, execs_append, ← ht, hwork]
  rw [hrun]
  refine ⟨?_, hclosed.sp, hclosed.keeps_saved hopened fun r hr => ?_, fun b hb => ?_⟩
  · rw [hclosed.reg _ (by decide) (by decide) (by decide)]
    exact A64.State.reg_set_self _ _ v
  · have hne : ∀ n : UInt8, n.toNat < 19 → r ≠ .x n := fun n hn =>
      Reg.ne_of_mem_among hr (Reg.x_mem_among.mpr ⟨le_rfl, le_rfl⟩) (by omega)
    exact hreg r (hne 0 (by decide)) (hne 9 (by decide))
  · have hfar : ∀ x : ℤ, -24 ≤ x → x ≤ -8 → 8 ≤ (b - addr (s.reg .sp) x).toNat := by
      intro x hlo hhi
      by_contra hlt
      exact hb (mem_area (by omega) hlo (by omega))
    have hslot : addr fp (-8) = addr (s.reg .sp) (-24) := addr_addr _ _ _
    rw [hclosed.mem, hu, A64.State.mem_set, A64.State.mem_store, A64.State.mem_set, hopened.mem,
      hslot, Mem.write_of_le (hfar _ le_rfl (by omega)), Mem.write_of_le (hfar _ (by omega) le_rfl),
      Mem.write_of_le (hfar _ (by omega) (by omega))]

/-- Every routine answers with the word after its first argument. -/
def incWorld : World :=
  ⟨fun _ => 0, .default, fun b => b == 64, fun _ args mem _ => (args.headD 0 + 1, mem)⟩

def incEnv : Env := ⟨fun _ => 0, fun _ => execs ⟨fun _ => 0, fun _ => id⟩ incCode⟩

theorem data_notMem_passOn {b : Word} (h : b ∈ passOnLayout.area 4080) :
    incWorld.data b = false := by
  obtain ⟨x, hlo, hhi, rfl⟩ := h
  have hlo' : -16 ≤ x := hlo
  have hhi' : x < 24 := hhi
  interval_cases x <;> rfl

/-- The function answers where `passOn` calls it, although it has a frame of its own. -/
theorem answers_inc (σ : Ir.State) (routine : String) (a : Word) :
    Answers incEnv passOnLayout 4080 incWorld σ 16 routine [a] := by
  intro s hholds hsp hargs
  have hfirst : s.reg (.x 0) = a := by
    obtain ⟨words, hwords⟩ := hargs
    have hhead := congrArg List.head? hwords
    rw [List.singleton_append, List.head?_cons] at hhead
    exact (Option.some.inj hhead).symm
  have hbelow : s.reg .sp = addr 4080 (-32) := hsp
  obtain ⟨hresult, hsp', hkept, hmem⟩ := incCode_spec ⟨fun _ => 0, fun _ => id⟩ s
  have hother : ∀ x : ℤ, -4096 ≤ x → x < -56 ∨ -32 ≤ x → x ≤ 4096 →
      (incEnv.routine routine s).mem (addr 4080 x) = s.mem (addr 4080 x) := by
    intro x hlo hx hhi
    refine hmem _ ?_
    rintro ⟨y, hlo', hhi', heq⟩
    rw [hbelow, addr_addr] at heq
    have hxy := eq_of_addr_eq heq (by omega) (by omega)
    omega
  refine ⟨hresult.trans (by rw [hfirst]; rfl), fun b hb => ?_, ?_, hsp', hkept⟩
  · obtain rfl : b = 64 := eq_of_beq hb
    have hdata := hother (-4016) (by omega) (.inl (by omega)) (by omega)
    rw [show addr 4080 (-4016) = 64 by decide] at hdata
    exact hdata.trans (hholds.data 64 hb)
  · rintro b ⟨x, hlo, hhi, rfl⟩
    have hlo' : -16 ≤ x := hlo
    have hhi' : x < 24 := hhi
    exact hother x (by omega) (.inr (by omega)) (by omega)

/-- The argument 41, and every other register and the memory zero. -/
def passOnState : Ir.State := ⟨fun r => if r = ⟨0⟩ then 41 else 0, fun _ => 0, []⟩

/-- A machine in which the frame of `passOn` is open. -/
def passOnMachine : A64.State :=
  ⟨fun r => if r = .x 0 then 41 else if r = .fp then 4080 else if r = .sp then 4064 else 0,
    ⟨false, false, false, false⟩, fun _ => 0, []⟩

theorem passOn_param {r : VReg} {i : Fin 8} (h : passOnLayout.home? r = some (.param i)) :
    r = ⟨0⟩ ∧ i = 0 := by
  obtain ⟨hi, hget, -⟩ := Layout.paramIndex?_eq_some (Layout.home?_eq_param.mp h)
  have hi' : i.val < 1 := hi
  obtain rfl : i = 0 := Fin.ext (by omega)
  exact ⟨hget.symm, rfl⟩

theorem passOn_related : passOnLayout.Related 4080 incWorld passOnState passOnMachine := by
  refine ⟨⟨rfl, fun r off hr => ?_, fun _ _ => rfl, .nil⟩, fun r i hr => ?_, rfl⟩
  · have hne : r ≠ ⟨0⟩ := by
      rintro rfl
      rw [show passOnLayout.home? ⟨0⟩ = some (.param 0) from rfl] at hr
      cases hr
    have hzero : passOnMachine.mem.read (offsetAddr 4080 off) = 0 := by
      ext k hk
      simp [Mem.read, passOnMachine]
    rw [hzero]
    exact (if_neg hne).symm
  · obtain ⟨rfl, rfl⟩ := passOn_param hr
    rfl

theorem lower_call_inc :
    ∃ lines after s', Scratch.Yields
        ((passOnLayout.site .default [] passOn).lower (.call (some ⟨1⟩) "inc" [⟨0⟩]))
        ⟨.temporaries, []⟩ lines after ∧
      passOnLayout.Related 4080 incWorld
        ⟨Function.update passOnState.val ⟨1⟩ 42, fun _ => 0, [.call "inc" [41] 42]⟩ s' ∧
      Keeps 4080 passOnMachine s' ∧
      ∀ code rest, A64.Reaches incEnv code (lines ++ rest, passOnMachine) (rest, s') := by
  have hlower : ∃ lines after, Scratch.Yields
      ((passOnLayout.site .default [] passOn).lower (.call (some ⟨1⟩) "inc" [⟨0⟩]))
      ⟨.temporaries, []⟩ lines after := ⟨_, _, rfl⟩
  obtain ⟨lines, after, hlower⟩ := hlower
  obtain ⟨s', h⟩ := lower_preserves_meaning passOnLayout_eq Pool.temporaries_free rfl
    (by rintro _ ⟨⟩) hlower (fun _ => rfl) rfl (fun b hb => data_notMem_passOn hb)
    (fun routine args h => by
      cases h
      exact answers_inc _ _ _)
    passOn_related rfl
  exact ⟨lines, after, s', hlower, h⟩

end A64Lowering
