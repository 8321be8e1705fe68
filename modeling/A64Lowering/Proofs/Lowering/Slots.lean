import Mathlib
import A64Lowering.Proofs.Lowering.Calls
import A64Lowering.Proofs.Lowering.Placement

/-! # Slots at every depth

* `Layout.Assigns`: an offset that some layout gives to a slot. `assigns_iff`: these are the
  multiples of 8 from -8 down to `-2 ^ 30`.
* `execs_slotAccess`: an access of a slot, near or far, is one at the slot's address.
* `Inst.InReach`: the instructions of such an access, with the bounds of their immediates.
* `Loads`, `Stores`: what the code for a slot does. `slot_access_exact`. -/
namespace A64Lowering
set_option autoImplicit false

open A64 Ir

/-! ## Offsets -/

namespace Layout
variable {off : Int32}

/-- Some fragment has a register with a slot at this offset. -/
def Assigns (off : Int32) : Prop :=
  ∃ frag l r, ofFragment frag = .ok l ∧ l.home? r = some (.slot off)

/-- A fragment that defines this many registers. -/
def stacked (count : ℕ) : Fragment :=
  ⟨"stacked", [], (List.range count).map fun n => .mov ⟨.ofNat n⟩ (.imm 0)⟩

theorem ofNat_vreg_inj {m n : ℕ} (hm : m < 2 ^ 32) (hn : n < 2 ^ 32)
    (h : (⟨.ofNat m⟩ : VReg) = ⟨.ofNat n⟩) : m = n := by
  have hnat := congrArg (fun r : VReg => r.id.toNat) h
  dsimp only at hnat
  rwa [UInt32.toNat_ofNat_of_lt' hm, UInt32.toNat_ofNat_of_lt' hn] at hnat

theorem card_locals_stacked {count : ℕ} (h : count ≤ 2 ^ 32) :
    (stacked count).locals.card = count := by
  have hlocals : (stacked count).locals
      = (Finset.range count).image fun n => (⟨.ofNat n⟩ : VReg) := by
    ext r
    simp [mem_locals, stacked, Instruction.target?]
  have hinj : Set.InjOn (fun n => (⟨.ofNat n⟩ : VReg)) (Finset.range count) := by
    intro m hm n hn heq
    exact ofNat_vreg_inj ((Finset.mem_range.mp hm).trans_le h) ((Finset.mem_range.mp hn).trans_le h)
      heq
  rw [hlocals, Finset.card_image_of_injOn hinj, Finset.card_range]

theorem home?_stacked {k : ℕ} {l : Layout} (hk : k < 2 ^ 32)
    (h : ofFragment (stacked (k + 1)) = .ok l) :
    l.home? ⟨.ofNat k⟩ = some (.slot off) ↔ off.toInt = -8 * (k + 1) := by
  have hbody : (stacked (k + 1)).body = (stacked k).body ++ .mov ⟨.ofNat k⟩ (.imm 0) :: [] := by
    simp [stacked, List.range_succ]
  have hfirst : ∀ first ∈ (stacked k).body, first.target? ≠ some ⟨.ofNat k⟩ := by
    intro first hmem heq
    obtain ⟨n, hn, rfl⟩ := List.mem_map.mp hmem
    have hlt := List.mem_range.mp hn
    exact hlt.ne (ofNat_vreg_inj (hlt.trans hk) hk (Option.some.inj heq))
  rw [home?_eq_slot_of_first h hbody rfl hfirst List.not_mem_nil]
  show _ = -8 * (((stacked k).locals.card : ℤ) + 1) ↔ _
  rw [card_locals_stacked hk.le]

theorem assigns_iff : Assigns off ↔ 8 ∣ off.toInt ∧ -2 ^ 30 ≤ off.toInt ∧ off.toInt ≤ -8 := by
  constructor
  · rintro ⟨frag, l, r, hl, hhome⟩
    have fits := fits_of_ofFragment hl
    obtain ⟨hlo, hhi⟩ := slot_bounds fits hhome
    obtain ⟨-, _, _, _, -, -, -, hoff⟩ := (home?_eq_slot_iff hl).mp hhome
    have hsize := fits.locals_le
    exact ⟨by omega, by omega, hhi⟩
  · rintro ⟨hdvd, hlo, hhi⟩
    obtain ⟨k, hk⟩ : ∃ k : ℕ, off.toInt = -8 * (k + 1) := ⟨((-off.toInt) / 8 - 1).toNat, by omega⟩
    have hcard : (stacked (k + 1)).locals.card ≤ 2 ^ 27 := by
      rw [card_locals_stacked (by omega)]
      omega
    have hparams : (stacked (k + 1)).params.length ≤ 8 := Nat.zero_le 8
    obtain ⟨l, hl⟩ := exists_ofFragment hparams hcard
    exact ⟨_, l, _, hl, (home?_stacked (by omega) hl).mpr hk⟩

end Layout

/-! ## Code for slots -/

/-- An instruction of an access of a slot. A literal is a distance that no move brings into a
register. -/
def A64.Inst.InReach : Inst → Prop
  | .ldr _ _ offset | .str _ _ offset => -256 ≤ offset.toInt ∧ offset.toInt ≤ 0
  | .subImm _ _ imm => imm.toNat ≤ 4095
  | .movImm _ imm => |imm.toInt| ≤ 65535
  | .ldrLiteral _ imm => 65535 < imm.toInt
  | .sub _ _ _ => True
  | _ => False

section Access
variable {env : Env} {access : Reg → Int32 → Inst} {off : Int32}

/-- What the access does to the cell at an address it does to the slot. -/
theorem execs_slotAccess (s : A64.State) (effect : A64.State → Word → A64.State)
    (heffect : ∀ t rn off, exec env t (access rn off) = effect t (offsetAddr (t.get rn) off))
    (hlo : -2 ^ 30 ≤ off.toInt) (hhi : off.toInt ≤ 0) :
    ∃ v, execs env (slotAccess access off) s
      = effect (s.set slotScratch v) (addr (s.reg .fp) off.toInt) := by
  rw [slotAccess]
  split
  · refine ⟨s.reg slotScratch, ?_⟩
    rw [execs_cons, execs_nil, heffect, A64.State.set_reg_self]
    rfl
  · refine ⟨addr (s.reg .fp) off.toInt, ?_⟩
    have hbase : (s.set slotScratch (offsetAddr (s.reg .fp) off)).get slotScratch
        = offsetAddr (s.reg .fp) off := s.reg_set_self _ _
    have hcell : offsetAddr (offsetAddr (s.reg .fp) off) 0 = offsetAddr (s.reg .fp) off :=
      addr_zero _
    rw [execs_append, execs_slotAddress hlo hhi, execs_cons, execs_nil, heffect, hbase, hcell]
    rfl

theorem inReach_slotAddress (h : off.toInt.natAbs ≤ 2 ^ 30) : ∀ i ∈ slotAddress off, i.InReach := by
  have hmax : maxAddImm.toNat = 4095 := rfl
  rw [slotAddress]
  split
  · next hle =>
    rw [hmax] at hle
    rw [List.forall_mem_singleton, Inst.InReach,
      UInt32.toNat_ofNat_of_lt' (show _ < 2 ^ 32 by omega)]
    exact hle
  · have hword : (Int64.ofNat off.toInt.natAbs).toInt = off.toInt.natAbs :=
      Int64.toInt_ofNat_of_lt (by omega)
    have hmov : maxMovImm.toInt = 65535 := rfl
    have hmin : (-maxMovImm).toInt = -65535 := rfl
    rw [List.forall_mem_append, List.forall_mem_singleton, loadImm]
    refine ⟨?_, trivial⟩
    simp only [Int64.le_iff_toInt_le, hmov, hmin, hword]
    split
    · rw [List.forall_mem_singleton, Inst.InReach, hword, abs_le]
      assumption
    · rw [List.forall_mem_singleton, Inst.InReach, hword]
      omega

theorem inReach_slotAccess
    (haccess : ∀ rn off, -256 ≤ off.toInt → off.toInt ≤ 0 → (access rn off).InReach)
    (hlo : -2 ^ 30 ≤ off.toInt) (hhi : off.toInt ≤ 0) : ∀ i ∈ slotAccess access off, i.InReach := by
  have hmin : minDirectOffset.toInt = -256 := rfl
  rw [slotAccess]
  split
  · next hle =>
    rw [Int32.le_iff_toInt_le, hmin] at hle
    exact List.forall_mem_singleton.mpr (haccess _ _ hle hhi)
  · exact List.forall_mem_append.mpr ⟨inReach_slotAddress (by omega),
      List.forall_mem_singleton.mpr (haccess _ _ (by decide) (by decide))⟩

end Access

/-! ## Loads and stores -/

/-- The code brings the slot's word into `dst`. Apart from that it changes at most the slot scratch
register. -/
structure Loads (env : Env) (s : A64.State) (dst : Reg) (off : Int32) (t : A64.State) : Prop where
  run : execs env (loadSlot dst off) s = t
  value : t.reg dst = s.mem.read (addr (s.reg .fp) off.toInt)
  reg : ∀ r, r ≠ slotScratch → r ≠ dst → t.reg r = s.reg r
  flags : t.flags = s.flags
  mem : t.mem = s.mem
  log : t.log = s.log

/-- The code writes the word of `src` to the slot. Apart from that it changes at most the slot scratch
register. -/
structure Stores (env : Env) (s : A64.State) (src : Reg) (off : Int32) (t : A64.State) : Prop where
  run : execs env (storeSlot src off) s = t
  mem : t.mem = s.mem.write (addr (s.reg .fp) off.toInt) (s.reg src)
  reg : ∀ r, r ≠ slotScratch → t.reg r = s.reg r
  flags : t.flags = s.flags
  log : t.log = s.log ++ [.write (addr (s.reg .fp) off.toInt) (s.reg src)]

section Slots
variable {off : Int32}

theorem loads_slot (env : Env) (s : A64.State) (dst : Reg) (hlo : -2 ^ 30 ≤ off.toInt)
    (hhi : off.toInt ≤ 0) : ∃ t, Loads env s dst off t := by
  obtain ⟨v, hrun⟩ : ∃ v, execs env (slotAccess (.ldr dst) off) s = _ :=
    execs_slotAccess s (fun t a => t.set dst (t.mem.read a)) (fun _ _ _ => rfl) hlo hhi
  refine ⟨_, hrun, A64.State.reg_set_self .., fun r hscratch hdst => ?_, rfl, rfl, rfl⟩
  rw [A64.State.reg_set_of_ne _ _ hdst, A64.State.reg_set_of_ne _ _ hscratch]

theorem stores_slot (env : Env) (s : A64.State) {n : UInt8} (hn : n ≠ 16)
    (hlo : -2 ^ 30 ≤ off.toInt) (hhi : off.toInt ≤ 0) : ∃ t, Stores env s (.x n) off t := by
  have hsrc : Reg.x n ≠ slotScratch := fun heq => hn (Reg.x.inj heq)
  obtain ⟨v, hrun⟩ : ∃ v, execs env (slotAccess (.str (.x n)) off) s = _ :=
    execs_slotAccess s (fun t a => t.store a (t.reg (.x n))) (fun _ _ _ => rfl) hlo hhi
  rw [A64.State.reg_set_of_ne _ _ hsrc] at hrun
  exact ⟨_, hrun, rfl, fun r hr => s.reg_set_of_ne _ hr, rfl, rfl⟩

/-- Whatever slot a layout assigns, the code to load it reads the word at its address and the code to
store to it writes that word, with immediates that the instructions hold. The address is built in the
slot scratch register, so this register itself is no operand. -/
theorem slot_access_exact (off : Int32) :
    (Layout.Assigns off ↔ 8 ∣ off.toInt ∧ -2 ^ 30 ≤ off.toInt ∧ off.toInt ≤ -8) ∧
    (Layout.Assigns off → ∀ n : UInt8, n ≠ 16 → ∀ env s,
      (∃ t, Loads env s (.x n) off t) ∧ (∃ t, Stores env s (.x n) off t) ∧
        ∀ i ∈ loadSlot (.x n) off ++ storeSlot (.x n) off, i.InReach) := by
  refine ⟨Layout.assigns_iff, fun hoff n hn env s => ?_⟩
  obtain ⟨-, hlo, hhi⟩ := Layout.assigns_iff.mp hoff
  have hneg : off.toInt ≤ 0 := by omega
  have haccess : ∀ i ∈ loadSlot (.x n) off ++ storeSlot (.x n) off, i.InReach :=
    List.forall_mem_append.mpr ⟨inReach_slotAccess (fun _ _ => And.intro) hlo hneg,
      inReach_slotAccess (fun _ _ => And.intro) hlo hneg⟩
  exact ⟨loads_slot env s _ hlo hneg, stores_slot env s hn hlo hneg, haccess⟩

/-- A machine with 7 in `x9` and a frame far from the ends of memory. -/
def deepMachine : A64.State :=
  ⟨fun r => if r = .fp then 0x100000 else 7, ⟨false, false, false, false⟩, fun _ => 0, []⟩

/-- A slot whose distance needs a literal: what is stored comes back. -/
theorem slot_access_exact_literal :
    Layout.Assigns (-70000) ∧ (9 : UInt8) ≠ 16 ∧ (30 : UInt8) ≠ 16 ∧
      Inst.ldrLiteral slotScratch 70000 ∈ loadSlot (.x 9) (-70000) ∧
      ∃ t u, Stores incEnv deepMachine (.x 9) (-70000) t ∧ Loads incEnv t (.x 30) (-70000) u ∧
        u.reg (.x 30) = 7 := by
  have hoff : Layout.Assigns (-70000) := (slot_access_exact (-70000)).1.mpr (by decide)
  obtain ⟨-, ⟨t, hstores⟩, -⟩ := (slot_access_exact (-70000)).2 hoff 9 (by decide) incEnv deepMachine
  obtain ⟨⟨u, hloads⟩, -⟩ := (slot_access_exact (-70000)).2 hoff 30 (by decide) incEnv t
  refine ⟨hoff, by decide, by decide, by decide, t, u, hstores, hloads, ?_⟩
  rw [hloads.value, hstores.reg .fp (by decide), hstores.mem, Mem.read_write_self]
  rfl

end Slots
end A64Lowering
