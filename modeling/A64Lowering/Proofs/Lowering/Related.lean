import Mathlib
import A64Lowering.Proofs.Ir.Meaning
import A64Lowering.Proofs.Lowering.Emits
import A64Lowering.Proofs.Lowering.Homes
import A64Lowering.Proofs.Machine.Run

/-! # The state of a fragment on the machine

* `World.Sees`: the log of a machine that shows the log of a fragment.
* `Layout.area`, `Layout.Placed`: the bytes of a frame and of the parameters saved above it, apart
  from the data.
* `Layout.Holds`: the part of the relation that calls leave alone; `InRegs`, `Saved`: where the
  parameters are; `Related`: the relation between instructions.
* `Keeps`: what no instruction of a fragment changes.
* `Answers`: a routine that does what the world says, called where the fragment calls it. -/
namespace A64Lowering
set_option autoImplicit false

open A64 Ir

/-! ## Logs -/

namespace A64.Event

/-- Whether an event can be seen outside the activation, which sees its own stack alone. -/
def visible (data : Word → Bool) : Event → Bool
  | .call .. => true
  | .write address _ => data address

/-- A call passes its words in the first argument registers; the others hold anything. -/
inductive Shows : Event → Event → Prop where
  | call {routine : String} {args words : List Word} {result : Word} (h : args <+: words) :
      Shows (.call routine args result) (.call routine words result)
  | write (address value : Word) : Shows (.write address value) (.write address value)

end A64.Event

/-- The visible events of the machine are those of the fragment, in the same order. -/
def Ir.World.Sees (w : World) (log machine : List Event) : Prop :=
  List.Forall₂ Event.Shows log (machine.filter (Event.visible w.data))

namespace Ir.World

theorem dataCell_iff {w : World} {a : Word} :
    w.dataCell a = true ↔ ∀ b : Word, (b - a).toNat < 8 → w.data b = true := by
  rw [dataCell, List.all_eq_true]
  constructor
  · intro h b hb
    have hdata := h (b - a).toNat (List.mem_range.mpr hb)
    rwa [BitVec.ofNat_toNat, BitVec.setWidth_eq, show a + (b - a) = b by bv_omega] at hdata
  · intro h k hk
    refine h _ ?_
    have hlt := List.mem_range.mp hk
    bv_omega

theorem dataCell_self {w : World} {a : Word} (h : w.dataCell a = true) : w.data a = true :=
  dataCell_iff.mp h a (by simp)

theorem Sees.append {w : World} {log machine : List Event} {e f : Event} (h : w.Sees log machine)
    (hshows : Event.Shows e f) (hvisible : f.visible w.data = true) :
    w.Sees (log ++ [e]) (machine ++ [f]) := by
  rw [Sees, List.filter_append, List.filter_cons_of_pos hvisible]
  exact List.rel_append h (.cons hshows .nil)

theorem Sees.append_hidden {w : World} {log machine : List Event} {f : Event}
    (h : w.Sees log machine) (hhidden : f.visible w.data = false) :
    w.Sees log (machine ++ [f]) := by
  rw [Sees, List.filter_append, List.filter_cons_of_neg (by simp [hhidden]), List.filter_nil,
    List.append_nil]
  exact h

end Ir.World

/-! ## The area of an activation -/

namespace Layout

/-- The bytes of a frame, and those above it in which its parameters are saved. -/
def area (l : Layout) (fp : Word) : Set Word :=
  Area fp (-l.frame.localsSize.toNat) (16 + 8 * l.params.length)

/-- The distance of a cell that lies in the area. -/
def Inside (l : Layout) (x : ℤ) : Prop :=
  -(l.frame.localsSize.toNat : ℤ) ≤ x ∧ x + 8 ≤ 16 + 8 * l.params.length

/-- The slots fit the frame, and the area holds no data. -/
structure Placed (l : Layout) (fp : Word) (w : World) : Prop where
  fits : l.Fits
  apart : ∀ b ∈ l.area fp, w.data b = false

section Placed
variable {l : Layout} {fp : Word} {w : World}

theorem Inside.mem_area {x : ℤ} (h : l.Inside x) {b : Word} (hb : (b - addr fp x).toNat < 8) :
    b ∈ l.area fp :=
  A64.mem_area hb h.1 h.2

theorem Inside.addr_mem_area {x : ℤ} (h : l.Inside x) : addr fp x ∈ l.area fp :=
  h.mem_area (by simp)

theorem Placed.inside_slot (hp : l.Placed fp w) {r : VReg} {off : Int32}
    (h : l.home? r = some (.slot off)) : l.Inside off.toInt := by
  obtain ⟨hlo, hhi⟩ := slot_bounds hp.fits h
  exact ⟨hlo, by omega⟩

theorem inside_spill {i : Fin 8} (h : i ∈ l.paramIndices) : l.Inside (16 + 8 * i.val) := by
  have hlt := lt_of_mem_paramIndices h
  exact ⟨by omega, by omega⟩

theorem inside_record {x : ℤ} (hlo : 0 ≤ x) (hhi : x ≤ 8) : l.Inside x := ⟨by omega, by omega⟩

/-- Cells of the area that differ by a cell are apart, since the area is small. -/
theorem Placed.apart_cells (hp : l.Placed fp w) {x y : ℤ} (hx : l.Inside x) (hy : l.Inside y)
    (h : x + 8 ≤ y ∨ y + 8 ≤ x) : Apart (addr fp x) (addr fp y) := by
  have hle := hp.fits.locals_le
  have hparams := l.params_length
  obtain ⟨hx₁, hx₂⟩ := hx
  obtain ⟨hy₁, hy₂⟩ := hy
  exact apart_addr h (by omega) (by omega)

theorem Placed.data_write (hp : l.Placed fp w) {x : ℤ} (hx : l.Inside x) {b : Word}
    (hb : w.data b = true) (m : Mem) (v : Word) : m.write (addr fp x) v b = m b := by
  refine Mem.write_of_le ?_
  by_contra hlt
  have := hp.apart b (hx.mem_area (by omega))
  rw [hb] at this
  exact absurd this Bool.noConfusion

theorem Placed.apart_data (hp : l.Placed fp w) {b a : Word} (hb : b ∈ l.area fp)
    (ha : w.dataCell a = true) : 8 ≤ (b - a).toNat := by
  by_contra hlt
  have hdata := World.dataCell_iff.mp ha b (by omega)
  rw [hp.apart b hb] at hdata
  exact absurd hdata Bool.noConfusion

theorem Placed.read_data_write (hp : l.Placed fp w) {x : ℤ} (hx : l.Inside x) {a : Word}
    (ha : w.dataCell a = true) (m : Mem) (v : Word) :
    (m.write a v).read (addr fp x) = m.read (addr fp x) :=
  Mem.read_congr fun _ hb => Mem.write_of_le (hp.apart_data (hx.mem_area hb) ha)

end Placed

/-! ## States -/

/-- The frame pointer, the slots, the data and the log of a fragment's state. -/
structure Holds (l : Layout) (fp : Word) (w : World) (σ : Ir.State) (s : A64.State) : Prop where
  pointer : s.reg .fp = fp
  slot : ∀ r off, l.home? r = some (.slot off) → s.mem.read (offsetAddr fp off) = σ.val r
  data : ∀ a, w.data a = true → s.mem a = σ.mem a
  log : w.Sees σ.log s.log

/-- The parameters are in their argument registers. -/
def InRegs (l : Layout) (σ : Ir.State) (s : A64.State) : Prop :=
  ∀ r i, l.home? r = some (.param i) → s.reg (argReg i) = σ.val r

/-- The parameters are saved above the frame. -/
def Saved (l : Layout) (fp : Word) (σ : Ir.State) (s : A64.State) : Prop :=
  ∀ r i, l.home? r = some (.param i) → s.mem.read (addr fp (16 + 8 * i.val)) = σ.val r

/-- The state of a fragment between two instructions. -/
structure Related (l : Layout) (fp : Word) (w : World) (σ : Ir.State) (s : A64.State) : Prop
    extends l.Holds fp w σ s where
  params : l.InRegs σ s
  sp : s.reg .sp = addr fp (-l.frame.localsSize.toNat)

end Layout

/-- The callee-saved registers and the frame record are the same. -/
structure Keeps (fp : Word) (s t : A64.State) : Prop where
  reg : ∀ r ∈ Reg.among 19 29, t.reg r = s.reg r
  record : ∀ b ∈ Area fp 0 16, t.mem b = s.mem b

namespace Keeps
variable {fp : Word} {s t u : A64.State}

theorem refl (fp : Word) (s : A64.State) : Keeps fp s s := ⟨fun _ _ => rfl, fun _ _ => rfl⟩

theorem trans (h : Keeps fp s t) (h' : Keeps fp t u) : Keeps fp s u :=
  ⟨fun r hr => (h'.reg r hr).trans (h.reg r hr), fun b hb => (h'.record b hb).trans (h.record b hb)⟩

theorem of_changes (h : Changes Reg.volatile s t) : Keeps fp s t := by
  refine ⟨fun r hr => h.reg r ?_, fun b _ => by rw [h.mem]⟩
  intro hmem
  exact Reg.ne_of_mem_volatile hmem hr (by omega) rfl

end Keeps

/-! ## Routines -/

/-- The room that an instruction reserves for the arguments of its call. -/
def Ir.Instruction.homeArea : Instruction → ℕ
  | .call _ _ args => 16 * ((args.length + 1) / 2)
  | _ => 0

theorem homeAreaSize_toNat {n : ℕ} (h : n ≤ 8) : (homeAreaSize n).toNat = 16 * ((n + 1) / 2) := by
  interval_cases n <;> rfl

/-- Called in a state of the fragment, with the stack pointer below the frame and the room for the
arguments, the routine answers what the world says and keeps the stack pointer, the callee-saved
registers and the area of the caller. The stack from the frame down is its own: it may save its
arguments in the room, and have frames below. -/
def Answers (env : Env) (l : Layout) (fp : Word) (w : World) (σ : Ir.State) (room : ℕ)
    (routine : String) (args : List Word) : Prop :=
  ∀ s, l.Holds fp w σ s → s.reg .sp = addr fp (-(l.frame.localsSize.toNat + room)) →
    args <+: argWords s →
    (env.routine routine s).reg resultReg = (w.answer routine args σ.mem σ.log).1 ∧
    (∀ a, w.data a = true →
      (env.routine routine s).mem a = (w.answer routine args σ.mem σ.log).2 a) ∧
    (∀ b ∈ l.area fp, (env.routine routine s).mem b = s.mem b) ∧
    (env.routine routine s).reg .sp = s.reg .sp ∧
    ∀ r ∈ Reg.among 19 29, (env.routine routine s).reg r = s.reg r

/-! ## What keeps the relation -/

namespace Layout
variable {l : Layout} {fp : Word} {w : World} {σ : Ir.State} {s t : A64.State}

theorem Holds.of_changes (h : l.Holds fp w σ s) (hc : Changes Reg.volatile s t) :
    l.Holds fp w σ t := by
  refine ⟨?_, fun r off hr => ?_, fun a ha => ?_, ?_⟩
  · rw [hc.reg _ fun hmem => Reg.ne_of_mem_volatile hmem Reg.fp_mem (by omega) rfl, h.pointer]
  · rw [hc.mem, h.slot r off hr]
  · rw [hc.mem, h.data a ha]
  · rw [hc.log]
    exact h.log

theorem InRegs.of_changes (h : l.InRegs σ s) (hc : Changes (Reg.among 9 17) s t) :
    l.InRegs σ t := by
  intro r i hr
  rw [hc.reg _ fun hmem => Reg.ne_of_mem_among hmem (Reg.argReg_mem i) (by omega) rfl, h r i hr]

theorem Saved.of_mem_eq (h : l.Saved fp σ s) (hmem : t.mem = s.mem) : l.Saved fp σ t := by
  intro r i hr
  rw [hmem, h r i hr]

theorem Related.of_changes (h : l.Related fp w σ s) (hc : Changes (Reg.among 9 17) s t) :
    l.Related fp w σ t := by
  refine ⟨h.toHolds.of_changes (hc.mono (Reg.among_subset_volatile le_rfl)),
    h.params.of_changes hc, ?_⟩
  rw [hc.reg _ (Reg.sp_notMem_among _ _), h.sp]

/-- Only slots matter, so a parameter can have any value. -/
theorem Holds.set_param (h : l.Holds fp w σ s) {r : VReg} {i : Fin 8}
    (hr : l.home? r = some (.param i)) {v : Word} : l.Holds fp w (σ.set r v) s := by
  refine ⟨h.pointer, fun q off hq => ?_, h.data, h.log⟩
  have hne : q ≠ r := by
    rintro rfl
    rw [hr] at hq
    cases hq
  rw [Ir.State.val_set_of_ne σ v hne, h.slot q off hq]

/-! ## Writes to the stack -/

section Store
variable {x : ℤ} {r : VReg} {v : Word}

theorem Placed.holds_store (hp : l.Placed fp w) (hx : l.Inside x) (h : l.Holds fp w σ s)
    (hslot : ∀ q off, l.home? q = some (.slot off) → q ≠ r →
      off.toInt + 8 ≤ x ∨ x + 8 ≤ off.toInt)
    (hself : ∀ off, l.home? r = some (.slot off) → x = off.toInt) :
    l.Holds fp w (σ.set r v) (s.store (addr fp x) v) := by
  refine ⟨h.pointer, fun q off hq => ?_, fun a ha => ?_, ?_⟩
  · by_cases heq : q = r
    · subst heq
      rw [offsetAddr, ← hself off hq, A64.State.mem_store, Mem.read_write_self,
        Ir.State.val_set_self]
    · rw [offsetAddr, A64.State.mem_store, Ir.State.val_set_of_ne σ v heq,
        Mem.read_write_of_apart (hp.apart_cells (hp.inside_slot hq) hx (hslot q off hq heq))]
      exact h.slot q off hq
  · rw [A64.State.mem_store, hp.data_write hx ha, h.data a ha]
    rfl
  · exact h.log.append_hidden (hp.apart _ hx.addr_mem_area)

theorem Placed.holds_store_slot (hp : l.Placed fp w) (h : l.Holds fp w σ s) {off : Int32}
    (hr : l.home? r = some (.slot off)) :
    l.Holds fp w (σ.set r v) (s.store (offsetAddr fp off) v) := by
  refine hp.holds_store (hp.inside_slot hr) h (fun q off' hq hne => ?_) fun off' hr' => ?_
  · exact slots_apart hp.fits hq hr hne
  · rw [hr, Option.some.injEq, Home.slot.injEq] at hr'
    rw [hr']

theorem Placed.holds_store_spill (hp : l.Placed fp w) (h : l.Holds fp w σ s) {i : Fin 8}
    (hr : l.home? r = some (.param i)) :
    l.Holds fp w (σ.set r v) (s.store (addr fp (16 + 8 * i.val)) v) := by
  refine hp.holds_store (inside_spill (mem_paramIndices.mpr ⟨r, hr⟩)) h
    (fun q off' hq _ => ?_) fun off' hr' => ?_
  · have := (slot_bounds hp.fits hq).2
    omega
  · rw [hr] at hr'
    cases hr'

theorem InRegs.store_slot (h : l.InRegs σ s) {off : Int32} (hr : l.home? r = some (.slot off))
    (a : Word) : l.InRegs (σ.set r v) (s.store a v) := by
  intro q i hq
  have hne : q ≠ r := by
    rintro rfl
    rw [hr] at hq
    cases hq
  rw [A64.State.reg_store, Ir.State.val_set_of_ne σ v hne, h q i hq]

theorem Placed.saved_store_slot (hp : l.Placed fp w) (h : l.Saved fp σ s) {off : Int32}
    (hr : l.home? r = some (.slot off)) :
    l.Saved fp (σ.set r v) (s.store (offsetAddr fp off) v) := by
  intro q i hq
  have hne : q ≠ r := by
    rintro rfl
    rw [hr] at hq
    cases hq
  have hoff := (slot_bounds hp.fits hr).2
  have happ : Apart (addr fp (16 + 8 * i.val)) (addr fp off.toInt) :=
    hp.apart_cells (inside_spill (mem_paramIndices.mpr ⟨q, hq⟩)) (hp.inside_slot hr) (by omega)
  rw [offsetAddr, A64.State.mem_store, Mem.read_write_of_apart happ,
    Ir.State.val_set_of_ne σ v hne, h q i hq]

theorem Placed.saved_store_spill (hp : l.Placed fp w) (h : l.Saved fp σ s) {i : Fin 8}
    (hr : l.home? r = some (.param i)) :
    l.Saved fp (σ.set r v) (s.store (addr fp (16 + 8 * i.val)) v) := by
  intro q j hq
  by_cases heq : q = r
  · subst heq
    rw [hr, Option.some.injEq, Home.param.injEq] at hq
    subst hq
    rw [A64.State.mem_store, Mem.read_write_self, Ir.State.val_set_self]
  · have hne : j.val ≠ i.val := fun e => params_ne hq hr heq (Fin.ext e)
    have happ : Apart (addr fp (16 + 8 * j.val)) (addr fp (16 + 8 * i.val)) :=
      hp.apart_cells (inside_spill (mem_paramIndices.mpr ⟨q, hq⟩))
        (inside_spill (mem_paramIndices.mpr ⟨r, hr⟩)) (by omega)
    rw [A64.State.mem_store, Mem.read_write_of_apart happ, Ir.State.val_set_of_ne σ v heq,
      h q j hq]

/-- A write to a slot or to a saved parameter leaves the frame record alone. -/
theorem Placed.keeps_store (hp : l.Placed fp w) (hx : l.Inside x) (hrecord : x ≤ -8 ∨ 16 ≤ x) :
    Keeps fp s (s.store (addr fp x) v) := by
  refine ⟨fun _ _ => rfl, fun b hb => ?_⟩
  have hle := hp.fits.locals_le
  have hparams := l.params_length
  obtain ⟨hx₁, hx₂⟩ := hx
  obtain ⟨y, hlo, hhi, rfl⟩ := hb
  refine Mem.write_of_le ?_
  rw [toNat_addr_sub]
  omega

end Store

/-! ## Data and calls -/

theorem Placed.holds_store_data (hp : l.Placed fp w) (h : l.Holds fp w σ s) {a v : Word}
    (ha : w.dataCell a = true) :
    l.Holds fp w { σ with mem := σ.mem.write a v, log := σ.log ++ [.write a v] } (s.store a v) := by
  refine ⟨h.pointer, fun q off hq => ?_, fun b hb => ?_, ?_⟩
  · rw [offsetAddr, A64.State.mem_store, hp.read_data_write (hp.inside_slot hq) ha]
    exact h.slot q off hq
  · show s.mem.write a v b = σ.mem.write a v b
    rw [Mem.write, Mem.write]
    split
    · rfl
    · exact h.data b hb
  · exact h.log.append (.write a v) (World.dataCell_self ha)

theorem Placed.keeps_store_data (hp : l.Placed fp w) {a v : Word} (ha : w.dataCell a = true) :
    Keeps fp s (s.store a v) := by
  refine ⟨fun _ _ => rfl, fun b hb => ?_⟩
  obtain ⟨y, hlo, hhi, rfl⟩ := hb
  exact Mem.write_of_le (hp.apart_data ⟨y, by omega, by omega, rfl⟩ ha)

/-- A word of the data is the same for the fragment and for the machine. -/
theorem Holds.read_data (h : l.Holds fp w σ s) {a : Word} (ha : w.dataCell a = true) :
    s.mem.read a = σ.mem.read a :=
  Mem.read_congr fun b hb => h.data b (World.dataCell_iff.mp ha b hb)

section Call
variable {env : Env} {room : ℕ} {routine : String} {args : List Word}

/-- A routine that answers leaves the slots, and the fragment sees its answer. -/
theorem Placed.holds_call (hp : l.Placed fp w) (h : l.Holds fp w σ s)
    (hsp : s.reg .sp = addr fp (-(l.frame.localsSize.toNat + room)))
    (hargs : args <+: argWords s) (ha : Answers env l fp w σ room routine args) :
    l.Holds fp w (σ.call w routine args).2 (A64.call env routine s) := by
  obtain ⟨hresult, hdata, harea, -, hkept⟩ := ha s h hsp hargs
  refine ⟨?_, fun q off hq => ?_, hdata, ?_⟩
  · exact (hkept _ (Reg.among_subset (by omega) (by omega) Reg.fp_mem)).trans h.pointer
  · have hread : (A64.call env routine s).mem.read (offsetAddr fp off)
        = s.mem.read (offsetAddr fp off) :=
      Mem.read_congr fun b hb => harea b ((hp.inside_slot hq).mem_area hb)
    exact hread.trans (h.slot q off hq)
  · rw [A64.call, hresult]
    exact h.log.append (.call hargs) rfl

theorem Saved.call (hs : l.Saved fp σ s) (h : l.Holds fp w σ s)
    (hsp : s.reg .sp = addr fp (-(l.frame.localsSize.toNat + room)))
    (hargs : args <+: argWords s) (ha : Answers env l fp w σ room routine args) :
    l.Saved fp (σ.call w routine args).2 (A64.call env routine s) := by
  obtain ⟨-, -, harea, -, -⟩ := ha s h hsp hargs
  intro q i hq
  have hinside := inside_spill (mem_paramIndices.mpr ⟨q, hq⟩)
  exact (Mem.read_congr fun b hb => harea b (hinside.mem_area hb)).trans (hs q i hq)

theorem keeps_call (h : l.Holds fp w σ s)
    (hsp : s.reg .sp = addr fp (-(l.frame.localsSize.toNat + room)))
    (hargs : args <+: argWords s) (ha : Answers env l fp w σ room routine args) :
    Keeps fp s (A64.call env routine s) := by
  obtain ⟨-, -, harea, -, hkept⟩ := ha s h hsp hargs
  refine ⟨hkept, fun b hb => harea b ?_⟩
  obtain ⟨y, hlo, hhi, rfl⟩ := hb
  exact ⟨y, by omega, by omega, rfl⟩

end Call
end Layout
end A64Lowering
