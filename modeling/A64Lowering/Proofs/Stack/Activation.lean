import Mathlib
import A64Lowering.Lowering.Program
import A64Lowering.Proofs.Lowering.Transfer
import A64Lowering.Proofs.Stack.Walk

/-! # Activations on the stack

* `Activation`: a function that has been entered and has not returned, with its part of the stack.
* `Config`, `Config.Step`: the running activation, its callers and the machine. Calls of functions
  of the program enter activations, returns leave them, and other routines keep the live areas.
* `Spot.Holds`: what a spot says about the machine. `holds_of_moves`: a move keeps it true, and
  writes to no other part of the stack. -/
namespace A64Lowering
set_option autoImplicit false

open A64 Ir

/-! ## Activations -/

/-- A function that has been entered and has not returned. -/
structure Activation where
  frag : Fragment
  layout : Layout
  /-- The place of the stack pointer on entry, from the top of the stack. -/
  entry : ℤ
  /-- The lines to run next, which are those after the call while a callee runs. -/
  rest : List Line

namespace Activation
variable (a : Activation) (top : Word)

/-- The end of the locals area. -/
def bottom : ℤ := a.entry - 16 - a.layout.frame.localsSize.toNat

/-- The end of the parameters saved above the frame. -/
def ceiling : ℤ := a.entry + 8 * a.layout.params.length

/-- The slots, the frame record and the saved parameters. -/
def area : Set Word := Area top a.bottom a.ceiling

/-- The frame pointer of the function. -/
def pointer : Word := addr top (a.entry - 16)

/-- The cell is the slot of a register of the function, below its frame pointer. -/
def Slot (cell : Word) : Prop :=
  ∃ r off, a.layout.home? r = some (.slot off) ∧ cell = offsetAddr (a.pointer top) off ∧
    -(a.layout.frame.localsSize.toNat : ℤ) ≤ off.toInt ∧ off.toInt + 8 ≤ 0

/-- The cell is where a parameter of the function is saved. -/
def Spill (cell : Word) : Prop :=
  ∃ r i, a.layout.home? r = some (.param i) ∧ cell = addr (a.pointer top) (16 + 8 * i.val)

/-- The cell is half of the frame record. -/
def Record (cell : Word) : Prop := cell = a.pointer top ∨ cell = addr (a.pointer top) 8

/-- There is stack left for the frame and the room for the arguments of a call. -/
structure Fits : Prop where
  layout : a.layout.Fits
  entry_le : a.entry ≤ 0
  room : -2 ^ 62 ≤ a.bottom - 64

end Activation

/-- The bytes of the stack below `top`, and those above it that the outermost caller reserved. -/
def stackArea (top : Word) : Set Word := Area top (-2 ^ 62) 64

/-! ## Accesses -/

namespace A64

/-- The registers that addresses on the stack are in. -/
def Reg.OnStack (r : Reg) : Prop := r = .sp ∨ r = .fp ∨ r = slotScratch

instance : DecidablePred Reg.OnStack := fun r =>
  inferInstanceAs (Decidable (r = .sp ∨ r = .fp ∨ r = slotScratch))

theorem Reg.not_onStack {r : Reg} (h : r ∈ Reg.among 0 15) : ¬ r.OnStack := by
  rintro (rfl | rfl | rfl)
  · exact Reg.sp_notMem_among _ _ h
  · exact Reg.ne_of_mem_among h Reg.fp_mem (by omega) rfl
  · exact Reg.ne_of_mem_among h Reg.slotScratch_mem (by omega) rfl

namespace Inst

/-- The cells on the stack that an instruction writes. -/
def stackWrites (s : State) : Inst → List Word
  | .str _ rn off => if rn.OnStack then [offsetAddr (s.get rn) off] else []
  | .stp _ _ rn => [s.get rn, addr (s.get rn) 8]
  | _ => []

/-- The cells of heap and global variables that an instruction writes. -/
def dataWrites (s : State) : Inst → List Word
  | .str _ rn off => if rn.OnStack then [] else [offsetAddr (s.get rn) off]
  | _ => []

/-- The cells on the stack that an instruction reads, the frame record apart. -/
def stackReads (s : State) : Inst → List Word
  | .ldr _ rn off => if rn.OnStack then [offsetAddr (s.get rn) off] else []
  | _ => []

end Inst
end A64

/-! ## Steps -/

/-- A chain of activations, the innermost one running, and the machine. -/
structure Config where
  running : Activation
  callers : List Activation
  state : A64.State

/-- One line. A call of a function of the program enters it where the stack pointer is; any other
routine may do what it wants but for `sp`, `x29` and the areas of the live activations. Writes to
heap and global variables stay off the stack. -/
inductive Config.Step (env : Env) (program : Program) (text : List Line) (top : Word) :
    Config → Config → Prop where
  | skip {a : Activation} {callers : List Activation} {s : A64.State} {line : Line}
      {rest : List Line} (h : a.rest = line :: rest) (hline : ∀ i, line ≠ .inst i) :
      Step env program text top ⟨a, callers, s⟩ ⟨{ a with rest }, callers, s⟩
  | run {a : Activation} {callers : List Activation} {s : A64.State} {i : Inst}
      {rest rest' : List Line} (h : a.rest = .inst i :: rest) (hi : ∀ routine, i ≠ .bl routine)
      (hnext : A64.next text rest s i = some rest')
      (hdata : ∀ cell ∈ i.dataWrites s, ∀ b : Word, (b - cell).toNat < 8 → b ∉ stackArea top) :
      Step env program text top ⟨a, callers, s⟩ ⟨{ a with rest := rest' }, callers, exec env s i⟩
  | enter {a : Activation} {callers : List Activation} {s : A64.State} {callee : Activation}
      {rest : List Line} {lr : Word} (h : a.rest = .inst (.bl callee.frag.label) :: rest)
      (hfrag : callee.frag ∈ program.fragments)
      (hlayout : Layout.ofFragment callee.frag = .ok callee.layout)
      (hcode : Line.after callee.frag.label text = some callee.rest)
      (hsp : s.reg .sp = addr top callee.entry) (hfits : callee.Fits) :
      Step env program text top ⟨a, callers, s⟩
        ⟨callee, { a with rest } :: callers, s.set .lr lr⟩
  | outside {a : Activation} {callers : List Activation} {s t : A64.State} {routine : String}
      {rest : List Line} (h : a.rest = .inst (.bl routine) :: rest)
      (hroutine : Line.after routine text = none) (hsp : t.reg .sp = s.reg .sp)
      (hfp : t.reg .fp = s.reg .fp)
      (hareas : ∀ live ∈ a :: callers, ∀ b ∈ live.area top, t.mem b = s.mem b) :
      Step env program text top ⟨a, callers, s⟩ ⟨{ a with rest }, callers, t⟩
  | leave {a caller : Activation} {callers : List Activation} {s : A64.State} {rest : List Line}
      (h : a.rest = .inst .ret :: rest) :
      Step env program text top ⟨a, caller :: callers, s⟩ ⟨caller, callers, s⟩

/-- The outermost function at its label, with the whole stack left. -/
structure Config.Starts (program : Program) (text : List Line) (top : Word) (c : Config) :
    Prop where
  frag : c.running.frag ∈ program.fragments
  layout : Layout.ofFragment c.running.frag = .ok c.running.layout
  code : Line.after c.running.frag.label text = some c.running.rest
  entry : c.running.entry = 0
  fits : c.running.Fits
  callers : c.callers = []
  sp : c.state.reg .sp = top

/-! ## What spots say -/

/-- What a spot says about the machine, in an activation whose caller had this frame pointer. -/
structure Spot.Holds (p : Spot) (top : Word) (a : Activation) (caller : Word) (s : A64.State) :
    Prop where
  sp : s.reg .sp = addr top (a.entry - p.depth)
  pointer : s.reg .fp = if p.phase = .inside then a.pointer top else caller
  record : p.phase ≠ .outside → s.mem.read (a.pointer top) = caller
  number : ∀ n, p.scratch = .number n → s.reg slotScratch = BitVec.ofInt 64 n
  slot : ∀ x, p.scratch = .slot x → s.reg slotScratch = addr (a.pointer top) x

namespace Spot.Holds
variable {p : Spot} {top caller : Word} {a : Activation} {s t : A64.State}

theorem of_nothing (hp : p.scratch = .nothing) (hsp : s.reg .sp = addr top (a.entry - p.depth))
    (hpointer : s.reg .fp = if p.phase = .inside then a.pointer top else caller)
    (hrecord : p.phase ≠ .outside → s.mem.read (a.pointer top) = caller) :
    p.Holds top a caller s := by
  refine ⟨hsp, hpointer, hrecord, ?_, ?_⟩
  · intro n hn
    rw [hp] at hn
    cases hn
  · intro x hx
    rw [hp] at hx
    cases hx

/-- On entry to a function, the frame pointer is still the caller's. -/
theorem of_entry (hsp : s.reg .sp = addr top a.entry) (hpointer : s.reg .fp = caller) :
    Spot.entry.Holds top a caller s := by
  refine of_nothing rfl ?_ hpointer ?_
  · rw [hsp]
    congr 1
    exact (sub_zero _).symm
  · intro hout
    exact absurd rfl hout

theorem of_changes (h : p.Holds top a caller s) (hc : Changes (Reg.among 0 15) s t) :
    p.Holds top a caller t := by
  have hfp : t.reg .fp = s.reg .fp :=
    hc.reg _ fun hmem => Reg.ne_of_mem_among hmem Reg.fp_mem (by omega) rfl
  have hscratch : t.reg slotScratch = s.reg slotScratch :=
    hc.reg _ fun hmem => Reg.ne_of_mem_among hmem Reg.slotScratch_mem (by omega) rfl
  refine ⟨(hc.reg _ (Reg.sp_notMem_among _ _)).trans h.sp, hfp.trans h.pointer, fun hp => ?_,
    fun n hn => hscratch.trans (h.number n hn), fun x hx => hscratch.trans (h.slot x hx)⟩
  rw [hc.mem, h.record hp]

theorem set_scratch (h : p.Holds top a caller s) (v : Word) (k : Known)
    (hnumber : ∀ n, k = .number n → v = BitVec.ofInt 64 n)
    (hslot : ∀ x, k = .slot x → v = addr (a.pointer top) x) :
    Spot.Holds ⟨p.depth, p.phase, k⟩ top a caller (s.set slotScratch v) := by
  refine ⟨?_, ?_, h.record, fun n hn => ?_, fun x hx => ?_⟩
  · rw [s.reg_set_of_ne v (show Reg.sp ≠ slotScratch by decide), h.sp]
  · rw [s.reg_set_of_ne v (show Reg.fp ≠ slotScratch by decide), h.pointer]
  · rw [A64.State.reg_set_self, hnumber n hn]
  · rw [A64.State.reg_set_self, hslot x hx]

theorem set_sp (h : p.Holds top a caller s) (d : ℤ) :
    Spot.Holds ⟨d, p.phase, .nothing⟩ top a caller (s.set .sp (addr top (a.entry - d))) := by
  refine of_nothing rfl (s.reg_set_self _ _) ?_ h.record
  rw [s.reg_set_of_ne _ (show Reg.fp ≠ .sp by decide), h.pointer]

theorem forget (h : p.Holds top a caller s) :
    Spot.Holds ⟨p.depth, p.phase, .nothing⟩ top a caller s :=
  of_nothing rfl h.sp h.pointer h.record

theorem store (h : p.Holds top a caller s) {cell v : Word}
    (hcell : ∀ b, (b - a.pointer top).toNat < 8 → 8 ≤ (b - cell).toNat) :
    p.Holds top a caller (s.store cell v) := by
  refine ⟨h.sp, h.pointer, fun hp => ?_, h.number, h.slot⟩
  rw [A64.State.mem_store, Mem.read_write_of_apart hcell, h.record hp]

theorem of_rest (h : p.Holds top a caller s) (rest : List Line) :
    p.Holds top { a with rest } caller s :=
  ⟨h.sp, h.pointer, h.record, h.number, h.slot⟩

end Spot.Holds

/-! ## Cells -/

namespace Activation
variable {a : Activation} {top : Word}

theorem addr_pointer (a : Activation) (top : Word) (x : ℤ) :
    addr (a.pointer top) x = addr top (a.entry - 16 + x) := by
  rw [pointer, addr_addr]

theorem Fits.ceiling_le (h : a.Fits) : a.ceiling ≤ 64 := by
  have hentry := h.entry_le
  have hparams := a.layout.params_length
  rw [ceiling]
  omega

theorem Fits.area_subset (h : a.Fits) : a.area top ⊆ stackArea top := by
  have hroom := h.room
  have hceiling := h.ceiling_le
  rintro b ⟨x, hlo, hhi, rfl⟩
  exact ⟨x, by omega, by omega, rfl⟩

theorem mem_area_of_inside {x : ℤ} (hx : a.layout.Inside x) {b : Word}
    (hb : (b - addr (a.pointer top) x).toNat < 8) : b ∈ a.area top := by
  obtain ⟨hlo, hhi⟩ := hx
  rw [addr_pointer] at hb
  refine mem_area hb ?_ ?_
  · rw [bottom]
    omega
  · rw [ceiling]
    omega

theorem mem_area_of_pointer {b : Word} (hb : (b - a.pointer top).toNat < 8) : b ∈ a.area top := by
  refine mem_area_of_inside (Layout.inside_record le_rfl (by omega)) ?_
  rwa [addr_zero]

theorem read_pointer {m m' : Mem} (h : ∀ b ∈ a.area top, m' b = m b) :
    m'.read (a.pointer top) = m.read (a.pointer top) :=
  Mem.read_congr fun b hb => h b (mem_area_of_pointer hb)

theorem Fits.apart_record (h : a.Fits) {x : ℤ} (hx : a.layout.Inside x) (hout : x ≤ -8 ∨ 16 ≤ x)
    {b : Word} (hb : (b - a.pointer top).toNat < 8) :
    8 ≤ (b - addr (a.pointer top) x).toNat := by
  have hle := h.layout.locals_le
  have hparams := a.layout.params_length
  obtain ⟨hlo, hhi⟩ := hx
  have happ : Apart (addr (a.pointer top) 0) (addr (a.pointer top) x) :=
    apart_addr (by omega) (by omega) (by omega)
  rw [addr_zero] at happ
  exact happ b hb

theorem Fits.inside_slot (h : a.Fits) {r : VReg} {off : Int32}
    (hr : a.layout.home? r = some (.slot off)) :
    a.layout.Inside off.toInt ∧ off.toInt ≤ -8 := by
  obtain ⟨hlo, hhi⟩ := Layout.slot_bounds h.layout hr
  exact ⟨⟨hlo, by omega⟩, hhi⟩

end Activation

/-! ## Moves on the machine -/

section Moves
variable {env : Env} {a : Activation} {top caller : Word} {s : A64.State} {p q : Spot} {i : Inst}

theorem changes_of_works (h : i.Works) : Changes (Reg.among 0 15) s (exec env s i) := by
  cases i with
  | cmp rn rm => exact (Changes.refl _ s).flags _
  | ldr _ _ _ | str _ _ _ | stp _ _ _ | ldp _ _ _ | b _ | cbz _ _ | cbnz _ _ | bl _ | ret =>
    exact absurd h id
  | _ => exact (Changes.refl _ s).set _ h

/-- What a move leaves on the stack outside the activation's own area. -/
def KeepsOthers (a : Activation) (top : Word) (s t : A64.State) : Prop :=
  ∀ b ∈ stackArea top, b ∉ a.area top → t.mem b = s.mem b

theorem keepsOthers_of_mem_eq {t : A64.State} (h : t.mem = s.mem) : KeepsOthers a top s t :=
  fun b _ _ => by rw [h]

theorem keepsOthers_store {x : ℤ} (hx : a.layout.Inside x) (v : Word) :
    KeepsOthers a top s (s.store (addr (a.pointer top) x) v) := by
  intro b _ hb
  refine Mem.write_of_le ?_
  by_contra hlt
  exact hb (Activation.mem_area_of_inside hx (by omega))

theorem holds_store_own (hfits : a.Fits) (h : p.Holds top a caller s) {x : ℤ} {v : Word}
    (hx : a.layout.Inside x) (hout : x ≤ -8 ∨ 16 ≤ x) :
    p.Holds top a caller (s.store (addr (a.pointer top) x) v) ∧
      KeepsOthers a top s (s.store (addr (a.pointer top) x) v) :=
  ⟨h.store fun _ hb => hfits.apart_record hx hout hb, keepsOthers_store hx v⟩

theorem holds_store_data (hfits : a.Fits) (h : p.Holds top a caller s) {cell v : Word}
    (hdata : ∀ b : Word, (b - cell).toNat < 8 → b ∉ stackArea top) :
    p.Holds top a caller (s.store cell v) ∧ KeepsOthers a top s (s.store cell v) := by
  have hstack : ∀ b ∈ stackArea top, 8 ≤ (b - cell).toNat := by
    intro b hb
    by_contra hlt
    exact hdata b (by omega) hb
  constructor
  · refine h.store ?_
    intro b hb
    exact hstack b (hfits.area_subset (Activation.mem_area_of_pointer hb))
  · intro b hb _
    exact Mem.write_of_le (hstack b hb)

theorem holds_saveRecord (h : Spot.Holds ⟨16, .outside, .nothing⟩ top a caller s) (lr : Word) :
    Spot.Holds ⟨16, .saved, .nothing⟩ top a caller
        ((s.store (a.pointer top) caller).store (addr (a.pointer top) 8) lr) ∧
      KeepsOthers a top s
        ((s.store (a.pointer top) caller).store (addr (a.pointer top) 8) lr) := by
  have happ : Apart (addr (a.pointer top) 0) (addr (a.pointer top) 8) :=
    apart_addr (by omega) (by omega) (by omega)
  have hlow : KeepsOthers a top s (s.store (addr (a.pointer top) 0) caller) :=
    keepsOthers_store (Layout.inside_record le_rfl (by omega)) caller
  rw [addr_zero] at happ hlow
  constructor
  · refine .of_nothing rfl h.sp h.pointer ?_
    intro _
    rw [A64.State.mem_store, Mem.read_write_of_apart happ, A64.State.mem_store,
      Mem.read_write_self]
  · have hhigh : KeepsOthers a top (s.store (a.pointer top) caller)
        ((s.store (a.pointer top) caller).store (addr (a.pointer top) 8) lr) :=
      keepsOthers_store (Layout.inside_record (by omega) le_rfl) lr
    intro b hb hout
    rw [hhigh b hb hout, hlow b hb hout]

/-- A move does what its spots say, and leaves the rest of the stack alone. -/
theorem holds_of_moves (hfits : a.Fits) (hmove : Moves a.layout p i q)
    (h : p.Holds top a caller s)
    (hdata : ∀ cell ∈ i.dataWrites s, ∀ b : Word, (b - cell).toNat < 8 → b ∉ stackArea top) :
    q.Holds top a caller (exec env s i) ∧ KeepsOthers a top s (exec env s i) := by
  -- only stores reach memory: at `x29` or `x16` they hit a slot or a saved parameter, and `hdata`
  -- keeps all others off the stack
  cases hmove with
  | work hworks =>
    have hc : Changes (Reg.among 0 15) s (exec env s i) := changes_of_works hworks
    exact ⟨h.of_changes hc, keepsOthers_of_mem_eq hc.mem⟩
  | loadData ht hn =>
    exact ⟨h.of_changes ((Changes.refl _ s).set _ ht), keepsOthers_of_mem_eq rfl⟩
  | @storeData _ rt rn off hn =>
    refine holds_store_data hfits h (hdata _ ?_)
    rw [Inst.dataWrites, if_neg (Reg.not_onStack hn)]
    exact List.mem_singleton_self _
  | loadNear ht hr =>
    exact ⟨h.of_changes ((Changes.refl _ s).set _ ht), keepsOthers_of_mem_eq rfl⟩
  | loadSaved ht hr =>
    exact ⟨h.of_changes ((Changes.refl _ s).set _ ht), keepsOthers_of_mem_eq rfl⟩
  | @storeNear d r rt off hr =>
    obtain ⟨hin, hlow⟩ := hfits.inside_slot hr
    have hbase : s.get .fp = a.pointer top := h.pointer
    rw [exec, hbase]
    exact holds_store_own hfits h hin (.inl hlow)
  | @storeSaved d r rt j hr =>
    have hin := Layout.inside_spill (Layout.mem_paramIndices.mpr ⟨r, hr⟩)
    have hbase : s.get .fp = a.pointer top := h.pointer
    rw [exec, hbase, offsetAddr_spill]
    exact holds_store_own hfits h hin (.inr (by omega))
  | near n =>
    have hbase : s.get .fp = a.pointer top := h.pointer
    rw [exec, hbase]
    exact ⟨h.set_scratch _ _ (fun _ hn => by cases hn) (fun x hx => by cases hx; rfl),
      keepsOthers_of_mem_eq rfl⟩
  | @distance d n i hi =>
    have hexec : exec env s i = s.set slotScratch n.toBitVec := by
      rcases hi with rfl | rfl <;> rfl
    rw [hexec]
    refine ⟨h.set_scratch _ _ (fun m hm => ?_) (fun _ hx => by cases hx),
      keepsOthers_of_mem_eq rfl⟩
    cases hm
    rw [← Int64.toInt_toBitVec, BitVec.ofInt_toInt]
  | @far d n =>
    have hbase : s.get .fp = a.pointer top := h.pointer
    have hscratch : s.get slotScratch = BitVec.ofInt 64 n := h.number n rfl
    rw [exec, hbase, hscratch]
    refine ⟨h.set_scratch _ _ (fun _ hm => by cases hm) (fun x hx => ?_),
      keepsOthers_of_mem_eq rfl⟩
    cases hx
    rw [addr, BitVec.ofInt_neg, ← BitVec.sub_eq_add_neg]
  | loadFar ht hr =>
    exact ⟨(h.of_changes ((Changes.refl _ s).set _ ht)).forget, keepsOthers_of_mem_eq rfl⟩
  | @storeFar d r rt off hr =>
    obtain ⟨hin, hlow⟩ := hfits.inside_slot hr
    have hbase : s.get slotScratch = addr (a.pointer top) off.toInt := h.slot _ rfl
    rw [exec, hbase, offsetAddr, Int32.toInt_zero, addr_zero]
    obtain ⟨hholds, hkeeps⟩ := holds_store_own hfits h (v := s.get rt) hin (.inl hlow)
    exact ⟨hholds.forget, hkeeps⟩
  | @down d f n =>
    have hsp : addr (s.get .sp) (-n.toNat) = addr top (a.entry - (d + n.toNat)) := by
      rw [A64.State.get_sp, h.sp, addr_addr]
      congr 1
      ring
    rw [exec, hsp]
    exact ⟨h.set_sp _, keepsOthers_of_mem_eq rfl⟩
  | @up d f n =>
    have hsp : addr (s.get .sp) n.toNat = addr top (a.entry - (d - n.toNat)) := by
      rw [A64.State.get_sp, h.sp, addr_addr]
      congr 1
      ring
    rw [exec, hsp]
    exact ⟨h.set_sp _, keepsOthers_of_mem_eq rfl⟩
  | saveRecord =>
    have hsp : s.get .sp = a.pointer top := h.sp
    have hfp : s.get .fp = caller := h.pointer
    rw [exec, hsp, hfp]
    exact holds_saveRecord h (s.get .lr)
  | openFrame =>
    have hsp : s.get .sp = a.pointer top := h.sp
    rw [exec, hsp]
    refine ⟨.of_nothing rfl ?_ (s.reg_set_self _ _) fun _ => h.record (by decide),
      keepsOthers_of_mem_eq rfl⟩
    rw [s.reg_set_of_ne _ (show Reg.sp ≠ .fp by decide), h.sp]
    rfl
  | closeFrame =>
    have hsp : s.get .sp = a.pointer top := h.sp
    rw [exec, hsp, h.record (by decide)]
    refine ⟨.of_nothing rfl ?_ ?_ fun hout => absurd rfl hout, keepsOthers_of_mem_eq rfl⟩
    · rw [A64.State.reg_set_of_ne _ _ (show Reg.sp ≠ .lr by decide),
        A64.State.reg_set_of_ne _ _ (show Reg.sp ≠ .fp by decide), h.sp]
      rfl
    · rw [A64.State.reg_set_of_ne _ _ (show Reg.fp ≠ .lr by decide), A64.State.reg_set_self]
      rfl

end Moves
end A64Lowering
