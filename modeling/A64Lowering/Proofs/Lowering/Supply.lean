import Mathlib
import A64Lowering.Proofs.Lowering.Annotation
import A64Lowering.Proofs.Lowering.Calls

/-! # Which scratch registers are taken

Code names some registers itself; all others come from the pool, lowest first, at most two for an
instruction.

* `Inst.mapRegs`, `Line.mapRegs`, `Reg.replace`: other registers in code.
* `Pool.Supplies`: two pools that hand out corresponding registers.
* `Scratch.Mirrors`: with such pools, two steps have corresponding answers. `mirrors_operate`.
* `lowerFragment_replace`: the code of a fragment with one pool is that with another, apart from the
  two registers taken. -/
namespace A64Lowering
set_option autoImplicit false

open A64 Ir

/-! ## Other registers -/

namespace A64

/-- A register that code names without taking it from the pool. -/
def Reg.Named : Reg → Prop
  | .x n => n ≤ 7 ∨ n = 16 ∨ n = 29 ∨ n = 30
  | .sp => True
  | .xzr => True

instance : DecidablePred Reg.Named
  | .x n => inferInstanceAs (Decidable (n ≤ 7 ∨ n = 16 ∨ n = 29 ∨ n = 30))
  | .sp => .isTrue trivial
  | .xzr => .isTrue trivial

/-- `p₁` and `p₂` replaced by `q₁` and `q₂` at once. -/
def Reg.replace (p₁ p₂ q₁ q₂ r : Reg) : Reg :=
  if r = p₁ then q₁ else if r = p₂ then q₂ else r

def Inst.mapRegs (f : Reg → Reg) : Inst → Inst
  | .add rd rn rm => .add (f rd) (f rn) (f rm)
  | .sub rd rn rm => .sub (f rd) (f rn) (f rm)
  | .mul rd rn rm => .mul (f rd) (f rn) (f rm)
  | .sdiv rd rn rm => .sdiv (f rd) (f rn) (f rm)
  | .neg rd rn => .neg (f rd) (f rn)
  | .addImm rd rn imm => .addImm (f rd) (f rn) imm
  | .subImm rd rn imm => .subImm (f rd) (f rn) imm
  | .and rd rn rm => .and (f rd) (f rn) (f rm)
  | .orr rd rn rm => .orr (f rd) (f rn) (f rm)
  | .eorImm rd rn imm => .eorImm (f rd) (f rn) imm
  | .cmp rn rm => .cmp (f rn) (f rm)
  | .cset rd cond => .cset (f rd) cond
  | .mov rd rn => .mov (f rd) (f rn)
  | .movImm rd imm => .movImm (f rd) imm
  | .ldrLiteral rd imm => .ldrLiteral (f rd) imm
  | .ldr rt rn offset => .ldr (f rt) (f rn) offset
  | .str rt rn offset => .str (f rt) (f rn) offset
  | .stp rt₁ rt₂ rn => .stp (f rt₁) (f rt₂) (f rn)
  | .ldp rt₁ rt₂ rn => .ldp (f rt₁) (f rt₂) (f rn)
  | .adrp rd symbol => .adrp (f rd) symbol
  | .addLo12 rd rn symbol => .addLo12 (f rd) (f rn) symbol
  | .b label => .b label
  | .cbz rt label => .cbz (f rt) label
  | .cbnz rt label => .cbnz (f rt) label
  | .bl routine => .bl routine
  | .ret => .ret

def Line.mapRegs (f : Reg → Reg) : Line → Line
  | .inst i => .inst (i.mapRegs f)
  | line => line

/-- Named registers stay, and no other register becomes one. -/
structure Reg.Separates (f : Reg → Reg) : Prop where
  named : ∀ {r}, r.Named → f r = r
  of_named : ∀ {r}, (f r).Named → r.Named

theorem Reg.separates_replace {p₁ p₂ q₁ q₂ : Reg} (hp₁ : ¬ p₁.Named) (hp₂ : ¬ p₂.Named)
    (hq₁ : ¬ q₁.Named) (hq₂ : ¬ q₂.Named) : Separates (replace p₁ p₂ q₁ q₂) := by
  constructor
  · intro r hr
    have hne₁ : r ≠ p₁ := fun heq => hp₁ (heq ▸ hr)
    have hne₂ : r ≠ p₂ := fun heq => hp₂ (heq ▸ hr)
    rw [replace, if_neg hne₁, if_neg hne₂]
  · intro r hr
    rw [replace] at hr
    split_ifs at hr
    · exact absurd hr hq₁
    · exact absurd hr hq₂
    · exact hr

theorem Reg.Separates.eq_iff {f : Reg → Reg} (hf : Separates f) {r a : Reg} (ha : a.Named) :
    a = f r ↔ a = r := by
  constructor
  · rintro rfl
    exact hf.named (hf.of_named ha)
  · rintro rfl
    exact (hf.named ha).symm

theorem named_argReg (k : Fin 8) : (argReg k).Named := by
  revert k
  decide

end A64

/-! ## Pools that hand out corresponding registers -/

namespace A64.Pool

/-- The free registers, lowest first. -/
def free (p : Pool) : List PoolReg := (List.finRange 32).filter p.isFree

theorem acquire_of_free {p : Pool} {r : PoolReg} {rest : List PoolReg} (h : p.free = r :: rest) :
    ∃ after, p.acquire = .ok (r, after) ∧ after.free = rest := by
  have hfind : (List.finRange 32).find? p.isFree = some r := by
    rw [← List.head?_filter]
    exact congrArg List.head? h
  have hacquire : p.acquire = .ok (r, { p with held := p.held.set r true }) := by
    rw [acquire]
    split
    · next found =>
      rw [hfind] at found
      cases found
      rfl
    · next found =>
      rw [hfind] at found
      cases found
  refine ⟨_, hacquire, ?_⟩
  have hnodup : (r :: rest).Nodup := h ▸ (List.nodup_finRange 32).filter _
  have hfree : free { p with held := p.held.set r true } = p.free.filter (· ≠ r) := by
    rw [free, free, List.filter_filter]
    refine List.filter_congr fun q _ => ?_
    rw [Bool.eq_iff_iff, isFree_of_acquire hacquire]
    simp
  rw [hfree, h, List.filter_cons_of_neg (by simp), List.filter_eq_self]
  intro q hq
  rw [decide_eq_true_iff]
  rintro rfl
  exact (List.nodup_cons.mp hnodup).1 hq

/-- The next `n` registers that the second pool hands out are the images of those of the first. -/
inductive Supplies (f : Reg → Reg) : ℕ → Pool → Pool → Prop where
  | none (p q : Pool) : Supplies f 0 p q
  | next {n : ℕ} {p q p' q' : Pool} {r r' : PoolReg} (hp : p.acquire = .ok (r, p'))
      (hq : q.acquire = .ok (r', q')) (hr : r'.reg = f r.reg) (h : Supplies f n p' q') :
      Supplies f (n + 1) p q

theorem Supplies.of_le {f : Reg → Reg} {m n : ℕ} {p q : Pool} (h : Supplies f n p q)
    (hle : m ≤ n) : Supplies f m p q := by
  induction h generalizing m with
  | none =>
    obtain rfl : m = 0 := by omega
    exact .none _ _
  | next hp hq hr _ ih =>
    cases m with
    | zero => exact .none _ _
    | succ m => exact .next hp hq hr (ih (by omega))

theorem supplies_of_free {p q : Pool} {p₁ p₂ q₁ q₂ : PoolReg} {ps qs : List PoolReg}
    (hp : p.free = p₁ :: p₂ :: ps) (hq : q.free = q₁ :: q₂ :: qs) :
    Supplies (Reg.replace p₁.reg p₂.reg q₁.reg q₂.reg) 2 p q := by
  obtain ⟨p', hp₁, hp'⟩ := acquire_of_free hp
  obtain ⟨q', hq₁, hq'⟩ := acquire_of_free hq
  obtain ⟨p'', hp₂, -⟩ := acquire_of_free hp'
  obtain ⟨q'', hq₂, -⟩ := acquire_of_free hq'
  have hnodup : (p₁ :: p₂ :: ps).Nodup := hp ▸ (List.nodup_finRange 32).filter _
  have hne : p₂.reg ≠ p₁.reg := fun heq =>
    (List.nodup_cons.mp hnodup).1 (PoolReg.reg_injective heq ▸ List.mem_cons_self)
  refine .next hp₁ hq₁ ?_ (.next hp₂ hq₂ ?_ (.none _ _))
  · rw [Reg.replace, if_pos rfl]
  · rw [Reg.replace, if_neg hne, if_pos rfl]

end A64.Pool

/-! ## Steps with corresponding answers -/

namespace Scratch
variable {α β : Type} {f : Reg → Reg} {l m n : ℕ} {g : α → α} {h : β → β}

/-- With `n` registers supplied, the second step answers as the first one, under `g`, and leaves `m`
of them. -/
def Mirrors (f : Reg → Reg) (n m : ℕ) (g : α → α) (x x' : Scratch α) : Prop :=
  ∀ w w', Pool.Supplies f n w.pool w'.pool →
    (x'.run w').1 = (x.run w).1.map g ∧ Pool.Supplies f m (x.run w).2.pool (x'.run w').2.pool

theorem mirrors_pure {a a' : α} (ha : a' = g a) : Mirrors f n n g (pure a) (pure a') :=
  fun _ _ hsupplies => ⟨congrArg Except.ok ha, hsupplies⟩

theorem mirrors_ofExcept {e e' : Except LoweringFault α} (he : e' = e.map g) :
    Mirrors f n n g (ofExcept e) (ofExcept e') :=
  fun _ _ hsupplies => ⟨he, hsupplies⟩

theorem mirrors_acquire : Mirrors f (n + 1) n f acquire acquire := by
  intro w w' hsupplies
  cases hsupplies with
  | next hp hq hr hrest =>
    rw [run_acquire hp, run_acquire hq, hr]
    exact ⟨rfl, hrest⟩

theorem Mirrors.forget {x x' : Scratch α} (hx : Mirrors f n m g x x') : Mirrors f n 0 g x x' :=
  fun w w' hsupplies => ⟨(hx w w' hsupplies).1, .none _ _⟩

theorem Mirrors.bind {x x' : Scratch α} {k k' : α → Scratch β} (hx : Mirrors f n m g x x')
    (hk : ∀ a, Mirrors f m l h (k a) (k' (g a))) (hle : l ≤ m) :
    Mirrors f n l h (x >>= k) (x' >>= k') := by
  intro w w' hsupplies
  obtain ⟨hanswer, hrest⟩ := hx w w' hsupplies
  rw [run_bind, run_bind]
  rcases hrun : x.run w with ⟨fault | a, mid⟩ <;>
    rcases hrun' : x'.run w' with ⟨fault' | a', mid'⟩ <;>
    rw [hrun, hrun'] at hanswer hrest <;> cases hanswer
  · exact ⟨rfl, hrest.of_le hle⟩
  · exact hk a mid mid' hrest

end Scratch

/-! ## Parts of code -/

section Parts
variable {f : Reg → Reg} {s : Site}

theorem loadImm_map (dst : Reg) (n : Int64) :
    loadImm (f dst) n = (loadImm dst n).map (Inst.mapRegs f) := by
  rw [loadImm, loadImm]
  split <;> rfl

theorem binaryInst_map (op : BinaryOp) (lhs rhs : Reg) :
    binaryInst op (f lhs) (f rhs) = (binaryInst op lhs rhs).mapRegs f := by
  cases op <;> rfl

theorem unaryInst_map (op : UnaryOp) (r : Reg) :
    unaryInst op (f r) = (unaryInst op r).mapRegs f := by
  cases op <;> rfl

theorem immediateInst_map (op : BinaryOp) (lhs : Reg) (rhs : Operand) :
    immediateInst? op (f lhs) rhs = (immediateInst? op lhs rhs).map (Inst.mapRegs f) := by
  unfold immediateInst?
  cases rhs with
  | reg r => rfl
  | imm n =>
    dsimp only
    split
    · cases op <;> rfl
    · rfl

variable (hf : Reg.Separates f)
include hf

theorem slotAddress_map (off : Int32) :
    (slotAddress off).map (Inst.mapRegs f) = slotAddress off := by
  have hfp : f .fp = .fp := hf.named (by decide)
  have hscratch : f slotScratch = slotScratch := hf.named (by decide)
  rw [slotAddress]
  split
  · rw [List.map_singleton, Inst.mapRegs, hfp, hscratch]
  · rw [List.map_append, ← loadImm_map, List.map_singleton, Inst.mapRegs, hfp, hscratch]

theorem slotAccess_map (access access' : Reg → Int32 → Inst)
    (haccess : ∀ rn off, rn.Named → (access rn off).mapRegs f = access' rn off) (off : Int32) :
    (slotAccess access off).map (Inst.mapRegs f) = slotAccess access' off := by
  rw [slotAccess, slotAccess]
  split
  · rw [List.map_singleton, haccess .fp off (by decide)]
  · rw [List.map_append, slotAddress_map hf, List.map_singleton,
      haccess slotScratch 0 (by decide)]

theorem loadSlot_map (dst : Reg) (off : Int32) :
    loadSlot (f dst) off = (loadSlot dst off).map (Inst.mapRegs f) := by
  refine (slotAccess_map hf (.ldr dst) (.ldr (f dst)) (fun rn off hrn => ?_) off).symm
  rw [Inst.mapRegs, hf.named hrn]

theorem storeSlot_map (src : Reg) (off : Int32) :
    storeSlot (f src) off = (storeSlot src off).map (Inst.mapRegs f) := by
  refine (slotAccess_map hf (.str src) (.str (f src)) (fun rn off hrn => ?_) off).symm
  rw [Inst.mapRegs, hf.named hrn]

theorem moveReg_from_map (dst : Reg) (k : Fin 8) :
    moveReg (f dst) (argReg k) = (moveReg dst (argReg k)).map (Inst.mapRegs f) := by
  simp only [moveReg, hf.eq_iff (named_argReg k)]
  split
  · rfl
  · rw [List.map_singleton, Inst.mapRegs, hf.named (named_argReg k)]

theorem moveReg_to_map (src : Reg) (k : Fin 8) :
    moveReg (argReg k) (f src) = (moveReg (argReg k) src).map (Inst.mapRegs f) := by
  simp only [moveReg, eq_comm (b := argReg k), hf.eq_iff (named_argReg k)]
  split
  · rfl
  · rw [List.map_singleton, Inst.mapRegs, hf.named (named_argReg k)]

theorem saveParam_map (k : Fin 8) (src : Reg) :
    saveParam k (f src) = (saveParam k src).mapRegs f := by
  rw [saveParam, saveParam, Inst.mapRegs, hf.named (show Reg.fp.Named by decide)]

theorem restoreParam_map (k : Fin 8) (dst : Reg) :
    restoreParam k (f dst) = (restoreParam k dst).mapRegs f := by
  rw [restoreParam, restoreParam, Inst.mapRegs, hf.named (show Reg.fp.Named by decide)]

theorem load_map (dst : Reg) (r : VReg) :
    s.load (f dst) r = (s.load dst r).map (List.map (Inst.mapRegs f)) := by
  rw [Site.load, Site.load]
  rcases s.home r with fault | home
  · rfl
  · cases home with
    | slot off => exact congrArg Except.ok (loadSlot_map hf dst off)
    | param k => exact congrArg Except.ok (moveReg_from_map hf dst k)

theorem store_map (src : Reg) (r : VReg) :
    s.store (f src) r = (s.store src r).map (List.map (Inst.mapRegs f)) := by
  rw [Site.store, Site.store]
  rcases s.home r with fault | home
  · rfl
  · cases home with
    | slot off => exact congrArg Except.ok (storeSlot_map hf src off)
    | param k => exact congrArg Except.ok (moveReg_to_map hf src k)

theorem loadArg_map (dst : Reg) (r : VReg) :
    s.loadArg (f dst) r = (s.loadArg dst r).map (List.map (Inst.mapRegs f)) := by
  rw [Site.loadArg, Site.loadArg]
  rcases s.home r with fault | home
  · rfl
  · cases home with
    | slot off => exact congrArg Except.ok (loadSlot_map hf dst off)
    | param k => exact congrArg (fun i => Except.ok [i]) (restoreParam_map hf k dst)

theorem storeResult_map (src : Reg) (r : VReg) :
    s.storeResult (f src) r = (s.storeResult src r).map (List.map (Inst.mapRegs f)) := by
  rw [Site.storeResult, Site.storeResult]
  rcases s.home r with fault | home
  · rfl
  · cases home with
    | slot off => exact congrArg Except.ok (storeSlot_map hf src off)
    | param k => exact congrArg (fun i => Except.ok [i]) (saveParam_map hf k src)

/-! ## Calls name all their registers -/

theorem saveParams_map : s.saveParams.map (Inst.mapRegs f) = s.saveParams := by
  rw [Site.saveParams, List.map_map]
  refine List.map_congr_left fun k _ => ?_
  rw [Function.comp_apply, ← saveParam_map hf, hf.named (named_argReg k)]

theorem restoreParams_map : s.restoreParams.map (Inst.mapRegs f) = s.restoreParams := by
  rw [Site.restoreParams, List.map_map]
  refine List.map_congr_left fun k _ => ?_
  rw [Function.comp_apply, ← restoreParam_map hf, hf.named (named_argReg k)]

theorem load_named {dst : Reg} (hdst : dst.Named) (r : VReg) :
    s.load dst r = (s.load dst r).map (List.map (Inst.mapRegs f)) := by
  rw [← load_map hf, hf.named hdst]

theorem storeResult_named (r : VReg) :
    s.storeResult resultReg r = (s.storeResult resultReg r).map (List.map (Inst.mapRegs f)) := by
  rw [← storeResult_map hf, hf.named (show resultReg.Named by decide)]

theorem loadArgs_named {args : List VReg} {index : ℕ} (hlength : index + args.length ≤ 8) :
    s.loadArgs index args = (s.loadArgs index args).map (List.map (Inst.mapRegs f)) := by
  induction args generalizing index with
  | nil => rfl
  | cons arg args ih =>
    rw [List.length_cons] at hlength
    -- a ninth argument would go to a register that the pool may hand out
    have hnamed : (Reg.x (.ofNat index)).Named := named_argReg ⟨index, by omega⟩
    have hfirst := loadArg_map (s := s) hf (.x (.ofNat index)) arg
    rw [hf.named hnamed] at hfirst
    have hrest : s.loadArgs (index + 1) args = _ := ih (by omega)
    rw [Site.loadArgs]
    rcases hargument : s.loadArg (.x (.ofNat index)) arg with fault | first
    · rfl
    · rcases harguments : s.loadArgs (index + 1) args with fault | rest
      · rfl
      · rw [hargument] at hfirst
        rw [harguments] at hrest
        show Except.ok (first ++ rest) = .ok ((first ++ rest).map (Inst.mapRegs f))
        rw [List.map_append, ← Except.ok.inj hfirst, ← Except.ok.inj hrest]

theorem callFunction_named (target : Option VReg) (function : String) (args : List VReg) :
    s.callFunction target function args
      = (s.callFunction target function args).map (List.map (Inst.mapRegs f)) := by
  rcases hcall : s.callFunction target function args with fault | code
  · rfl
  · obtain ⟨arguments, result, hlength, harguments, hresult, rfl⟩ := s.callFunction_ok hcall
    have harguments' : s.loadArgs 0 args = _ := loadArgs_named hf (by omega)
    rw [harguments] at harguments'
    have hresult' : result.map (Inst.mapRegs f) = result := by
      cases target with
      | none =>
        cases hresult
        rfl
      | some r =>
        have hstore := storeResult_named (s := s) hf r
        rw [show s.storeResult resultReg r = _ from hresult] at hstore
        exact (Except.ok.inj hstore).symm
    have hsp : f .sp = .sp := hf.named trivial
    have hroom : ∀ i : Inst, i.mapRegs f = i →
        (if 0 < homeAreaSize args.length then [i] else []).map (Inst.mapRegs f)
          = if 0 < homeAreaSize args.length then [i] else [] := by
      intro i hi
      split
      · rw [List.map_singleton, hi]
      · rfl
    have hreserve := hroom (.subImm .sp .sp (homeAreaSize args.length)) (by
      rw [Inst.mapRegs, hsp])
    have hgiveBack := hroom (.addImm .sp .sp (homeAreaSize args.length)) (by
      rw [Inst.mapRegs, hsp])
    rw [Except.map]
    simp only [List.map_append, saveParams_map hf, restoreParams_map hf, hreserve, hgiveBack,
      ← Except.ok.inj harguments', hresult']
    rfl

end Parts

/-! ## Instructions -/

namespace Site
variable {f : Reg → Reg} {s : Site}

open Scratch (Mirrors mirrors_pure mirrors_ofExcept mirrors_acquire)

section
variable (hf : Reg.Separates f)
include hf

theorem mirrors_fetch {n : ℕ} (r : VReg) :
    Mirrors f (n + 1) n (Prod.map f (List.map (Inst.mapRegs f))) (s.fetch r) (s.fetch r) := by
  refine mirrors_acquire.bind (fun reg => ?_) le_rfl
  exact (mirrors_ofExcept (load_map hf reg r)).bind (fun _ => mirrors_pure rfl) le_rfl

theorem mirrors_operand {n : ℕ} (operand : Operand) :
    Mirrors f (n + 1) n (Prod.map f (List.map (Inst.mapRegs f))) (s.operand operand)
      (s.operand operand) := by
  cases operand with
  | reg r => exact mirrors_fetch hf r
  | imm n =>
    refine mirrors_acquire.bind (fun reg => mirrors_pure ?_) le_rfl
    rw [loadImm_map]
    rfl

theorem mirrors_applyBinary (op : BinaryOp) (lhs : Reg) (rhs : Operand) :
    Mirrors f 1 0 (List.map (Inst.mapRegs f)) (s.applyBinary op lhs rhs)
      (s.applyBinary op (f lhs) rhs) := by
  rw [applyBinary, applyBinary, immediateInst_map]
  rcases immediateInst? op lhs rhs with _ | i
  · refine (mirrors_operand hf rhs).bind ?_ le_rfl
    rintro ⟨reg, code⟩
    exact mirrors_pure (by simp [binaryInst_map])
  · exact (mirrors_pure rfl).forget

/-- A result goes home at the end of an instruction. -/
theorem mirrors_result {n : ℕ} (reg : Reg) (target : VReg) {code code' : List Inst}
    (hcode : code' = code.map (Inst.mapRegs f)) :
    Mirrors f n 0 (List.map (Inst.mapRegs f))
      (Scratch.ofExcept (s.store reg target) >>= fun result => pure (code ++ result))
      (Scratch.ofExcept (s.store (f reg) target) >>= fun result => pure (code' ++ result)) := by
  refine (mirrors_ofExcept (store_map hf reg target)).bind (fun result => ?_) (Nat.zero_le n)
  exact (mirrors_pure (by rw [List.map_append, hcode])).forget

theorem mirrors_operate (inst : Instruction) :
    Mirrors f 2 0 (List.map (Inst.mapRegs f)) (s.operate inst) (s.operate inst) := by
  cases inst with
  | mov target source =>
    exact (mirrors_operand hf source).bind (fun ⟨reg, code⟩ => mirrors_result hf reg target rfl)
      (Nat.zero_le _)
  | binary op target lhs rhs =>
    refine (mirrors_fetch hf lhs).bind (fun ⟨reg, code⟩ => ?_) (Nat.zero_le _)
    refine (mirrors_applyBinary hf op reg rhs).bind (fun operation => ?_) le_rfl
    exact mirrors_result hf reg target (by simp)
  | unary op target source =>
    refine (mirrors_fetch hf source).bind (fun ⟨reg, code⟩ => ?_) (Nat.zero_le _)
    exact mirrors_result hf reg target (by simp [unaryInst_map])
  | compare cond target lhs rhs =>
    refine (mirrors_fetch hf lhs).bind (fun ⟨lhsReg, lhsCode⟩ => ?_) (Nat.zero_le _)
    refine (mirrors_operand hf rhs).bind (fun ⟨rhsReg, rhsCode⟩ => ?_) (Nat.zero_le _)
    exact mirrors_result hf lhsReg target (by simp [Inst.mapRegs])
  | loadGlobal target name =>
    refine (mirrors_ofExcept (by cases s.checkGlobal name <;> rfl)).bind (fun _ => ?_)
      (Nat.zero_le _)
    refine mirrors_acquire.bind (fun reg => ?_) (Nat.zero_le _)
    exact mirrors_result hf reg target (by simp [Inst.mapRegs, symbolAddress])
  | storeGlobal source name =>
    refine (mirrors_ofExcept (by cases s.checkGlobal name <;> rfl)).bind (fun _ => ?_)
      (Nat.zero_le _)
    refine (mirrors_fetch hf source).bind (fun ⟨value, code⟩ => ?_) (Nat.zero_le _)
    refine mirrors_acquire.bind (fun address => mirrors_pure ?_) le_rfl
    simp [Inst.mapRegs, symbolAddress]
  | loadField target base field index =>
    refine (mirrors_fetch hf base).bind (fun ⟨reg, code⟩ => ?_) (Nat.zero_le _)
    exact mirrors_result hf reg target (by simp [Inst.mapRegs])
  | storeField source base field index =>
    refine (mirrors_fetch hf source).bind (fun ⟨value, valueCode⟩ => ?_) (Nat.zero_le _)
    refine (mirrors_fetch hf base).bind (fun ⟨address, addressCode⟩ => mirrors_pure ?_) le_rfl
    simp [Inst.mapRegs]
  | new target typeName size =>
    refine (mirrors_ofExcept (storeResult_named hf target)).bind (fun result => ?_) (Nat.zero_le _)
    refine (mirrors_pure ?_).forget
    have hbytes := loadImm_map (f := f) resultReg (objectBytes size)
    rw [hf.named (show resultReg.Named by decide)] at hbytes
    simp [saveParams_map hf, restoreParams_map hf, ← hbytes, Inst.mapRegs]
  | delete source =>
    refine (mirrors_ofExcept (load_named hf (named_argReg 0) source)).bind (fun argument => ?_)
      (Nat.zero_le _)
    refine (mirrors_pure ?_).forget
    simp [saveParams_map hf, restoreParams_map hf, Inst.mapRegs]
  | print source =>
    refine (mirrors_ofExcept (load_named hf (named_argReg 1) source)).bind (fun argument => ?_)
      (Nat.zero_le _)
    refine (mirrors_pure ?_).forget
    have hx : f (.x 0) = .x 0 := hf.named (by decide)
    simp [saveParams_map hf, restoreParams_map hf, Inst.mapRegs, symbolAddress, hx]
  | label name => exact (mirrors_pure rfl).forget
  | branch label => exact (mirrors_pure rfl).forget
  | condBranch value onTrue label =>
    refine (mirrors_fetch hf value).bind (fun ⟨reg, code⟩ => ?_) (Nat.zero_le _)
    refine (mirrors_pure ?_).forget
    cases onTrue <;> simp [Inst.mapRegs]
  | call target function args =>
    exact (mirrors_ofExcept (callFunction_named hf target function args)).forget
  | ret value =>
    cases value with
    | none => exact (mirrors_pure rfl).forget
    | some value =>
      refine (mirrors_ofExcept (load_named hf (named_argReg 0) value)).bind (fun code => ?_)
        (Nat.zero_le _)
      refine (mirrors_pure ?_).forget
      simp [Inst.mapRegs]

theorem mirrors_lines (inst : Instruction) :
    Mirrors f 2 0 (List.map (Line.mapRegs f)) (s.lines inst) (s.lines inst) := by
  by_cases hinst : ∃ name, inst = .label name
  · obtain ⟨name, rfl⟩ := hinst
    exact (mirrors_pure rfl).forget
  · rw [lines_eq fun name heq => hinst ⟨name, heq⟩]
    refine (mirrors_operate hf inst).bind (fun code => mirrors_pure ?_) le_rfl
    simp [Line.mapRegs]

theorem instLines_map {p q : Pool} (h : Pool.Supplies f 2 p q) (inst : Instruction) :
    s.instLines q inst = (s.instLines p inst).map (List.map (Line.mapRegs f)) := by
  have hlines : ∀ p, s.instLines p inst
      = ((s.lines inst).run ⟨p, []⟩).1.map (s.annotation inst ++ ·) := fun _ => rfl
  have hannotation : (s.annotation inst).map (Line.mapRegs f) = s.annotation inst := by
    refine (List.map_congr_left fun line hline => ?_).trans (List.map_id _)
    obtain ⟨text, rfl⟩ := Site.comment_of_annotationLine hline
    rfl
  rw [hlines, hlines, (mirrors_lines hf inst ⟨p, []⟩ ⟨q, []⟩ h).1]
  rcases (s.lines inst).run ⟨p, []⟩ with ⟨fault | lines, after⟩
  · rfl
  · show Except.ok _ = Except.ok _
    rw [List.map_append, hannotation]

/-! ## Fragments -/

theorem whole_map (lines : List Line) :
    (s.whole lines).map (Line.mapRegs f) = s.whole (lines.map (Line.mapRegs f)) := by
  have hsp : f .sp = .sp := hf.named trivial
  have hfp : f .fp = .fp := hf.named (by decide)
  have hlr : f .lr = .lr := hf.named (by decide)
  have hheading : (heading s.function s.layout.frame).map (Line.mapRegs f)
      = heading s.function s.layout.frame := by
    simp [heading, Frame.prologue, Line.mapRegs, Inst.mapRegs, hsp, hfp, hlr]
  have hending : (ending s s.layout.frame).map (Line.mapRegs f) = ending s s.layout.frame := by
    simp [ending, Frame.epilogue, Line.mapRegs, Inst.mapRegs, hsp, hfp, hlr]
  rw [whole, List.map_append, List.map_append, hheading, hending, whole]

end
end Site

theorem fragmentLines_map {f : Reg → Reg} (hf : Reg.Separates f) {p q : Pool}
    (h : Pool.Supplies f 2 p q) (settings : Settings) (globals : List String) (frag : Fragment) :
    fragmentLines settings globals q frag
      = (fragmentLines settings globals p frag).map (List.map (Line.mapRegs f)) := by
  cases hlayout : Layout.ofFragment frag with
  | error fault =>
    rw [fragmentLines, fragmentLines, lowerFragment_of_error _ _ _ hlayout,
      lowerFragment_of_error _ _ _ hlayout]
    rfl
  | ok layout =>
    have hlines : ∀ p, fragmentLines settings globals p frag
        = ((frag.body.mapM ((layout.site settings globals frag).instLines p)).map
            List.flatten).map (layout.site settings globals frag).whole := by
      intro p
      rw [fragmentLines, lowerFragment_of_layout _ _ _ hlayout]
      rfl
    rw [hlines, hlines, mapM_eq_map_mapM fun inst _ => Site.instLines_map hf h inst]
    rcases frag.body.mapM ((layout.site settings globals frag).instLines p) with fault | parts
    · rfl
    · show Except.ok _ = Except.ok _
      rw [Site.whole_map hf, List.map_flatten]

/-- With another pool, a function has the same fault or the same code, apart from the two registers
that are taken: the lowest free ones, which replace those of the first pool throughout. -/
theorem lowerFragment_replace {p q : Pool} {p₁ p₂ q₁ q₂ : PoolReg} {ps qs : List PoolReg}
    (hp : p.free = p₁ :: p₂ :: ps) (hq : q.free = q₁ :: q₂ :: qs) (hp₁ : ¬ p₁.reg.Named)
    (hp₂ : ¬ p₂.reg.Named) (hq₁ : ¬ q₁.reg.Named) (hq₂ : ¬ q₂.reg.Named) (settings : Settings)
    (globals : List String) (frag : Fragment) :
    (lowerFragment settings globals frag q).1
      = (lowerFragment settings globals frag p).1.map
          (List.map (Line.mapRegs (Reg.replace p₁.reg p₂.reg q₁.reg q₂.reg))) :=
  fragmentLines_map (Reg.separates_replace hp₁ hp₂ hq₁ hq₂) (Pool.supplies_of_free hp hq) settings
    globals frag

/-- A function that compares its parameters. -/
def less : Fragment where
  label := "less"
  params := [⟨0⟩, ⟨1⟩]
  body := [.compare .lt ⟨2⟩ ⟨0⟩ (.reg ⟨1⟩), .ret (some ⟨2⟩)]

/-- Without `x9`, the second register of the one pool is the first of the other. -/
theorem replace_less :
    Pool.temporaries.free = [9, 10, 11, 12, 13, 14, 15] ∧
      (Pool.temporaries.reserve 9).free = [10, 11, 12, 13, 14, 15] ∧
      ¬ (Reg.x 9).Named ∧ ¬ (Reg.x 10).Named ∧ ¬ (Reg.x 11).Named ∧
      ∃ code, (lowerFragment .default [] less .temporaries).1 = .ok code ∧
        .inst (.cmp (.x 9) (.x 10)) ∈ code ∧
        (lowerFragment .default [] less (Pool.temporaries.reserve 9)).1
          = .ok (code.map (Line.mapRegs (Reg.replace (.x 9) (.x 10) (.x 10) (.x 11)))) := by
  have hp : Pool.temporaries.free = [9, 10, 11, 12, 13, 14, 15] := by decide
  have hq : (Pool.temporaries.reserve 9).free = [10, 11, 12, 13, 14, 15] := by decide
  have hcode : ∃ code, (lowerFragment .default [] less .temporaries).1 = .ok code ∧
      .inst (.cmp (.x 9) (.x 10)) ∈ code := ⟨_, rfl, by decide⟩
  obtain ⟨code, hlower, hcmp⟩ := hcode
  refine ⟨hp, hq, by decide, by decide, by decide, code, hlower, hcmp, ?_⟩
  have hreplace := lowerFragment_replace hp hq (by decide) (by decide) (by decide) (by decide)
    .default [] less
  rw [hlower] at hreplace
  exact hreplace

end A64Lowering
