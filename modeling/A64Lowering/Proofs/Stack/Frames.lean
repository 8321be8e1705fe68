import Mathlib
import A64Lowering.Proofs.Lowering.FragmentMeaning
import A64Lowering.Proofs.Lowering.Placement
import A64Lowering.Proofs.Stack.Depth

/-! # Frames of every size

* `Checked.add?`, `Checked.mul?`: sums and products that have to stay within 32 bits.
* `Frame.ofSlots?`: a frame that is laid out with them. `ofSlots?_eq`: it is the usual one, so
  nothing overflows on the way to a frame or to a fault.
* `LeavesFrame`: what code between prologue and epilogue leaves alone.
* `Frame.Reserves`: the sizes and the steps of a frame, and that its epilogue undoes its prologue.
* `ofSlots_reserves`: which numbers of slots have a frame, and that all frames are of this kind. -/
namespace A64Lowering.A64
set_option autoImplicit false

/-! ## Arithmetic within 32 bits -/

namespace Checked

def add? (a b : UInt32) : Option UInt32 :=
  if a.toNat + b.toNat < 0x100000000 then some (a + b) else none

def mul? (a b : UInt32) : Option UInt32 :=
  if a.toNat * b.toNat < 0x100000000 then some (a * b) else none

def alignTo? (size align : UInt32) : Option UInt32 := do
  let quotient ← if size % align = 0 then some (size / align) else add? (size / align) 1
  mul? quotient align

theorem add?_eq {a b : UInt32} (h : a.toNat + b.toNat < 0x100000000) : add? a b = some (a + b) :=
  if_pos h

theorem mul?_eq {a b : UInt32} (h : a.toNat * b.toNat < 0x100000000) : mul? a b = some (a * b) :=
  if_pos h

theorem alignTo?_eq {size : UInt32} (h : size.toNat ≤ 2 ^ 30) :
    alignTo? size stackAlign = some (alignTo size stackAlign) := by
  have h16 : stackAlign.toNat = 16 := rfl
  have hquotient : (size / stackAlign).toNat = size.toNat / 16 := UInt32.toNat_div ..
  have hnext : (size / stackAlign + 1).toNat = size.toNat / 16 + 1 := by
    rw [UInt32.toNat_add, hquotient]
    simp
    omega
  unfold alignTo? alignTo
  by_cases hmod : size % stackAlign = 0
  · simp only [if_pos hmod]
    exact mul?_eq (by rw [hquotient, h16]; omega)
  · simp only [if_neg hmod]
    rw [add?_eq (by rw [hquotient]; simp; omega)]
    exact mul?_eq (by rw [hnext, h16]; omega)

end Checked

namespace Frame

/-- The frame for `rawSize` bytes of slots, laid out without an overflow. -/
def ofSize? (rawSize : UInt32) : Option (Except ConventionFault Frame) :=
  if maxFrameSize < rawSize then some (.error (.frameTooLarge rawSize))
  else do
    let localsSize ← Checked.alignTo? rawSize stackAlign
    return if localsSize % stackAlign = 0 then .ok ⟨rawSize, localsSize⟩
      else .error (.misalignedFrame localsSize)

/-- The frame for `slots` slots. Only their own size may leave 32 bits, which is a fault. -/
def ofSlots? (slots : ℕ) : Option (Except ConventionFault Frame) :=
  match if slots < 0x100000000 then Checked.mul? (.ofNat slots) slotSize else none with
  | some rawSize => ofSize? rawSize
  | none => some (.error (.frameTooLarge 0xFFFFFFFF))

theorem ofSize?_eq (rawSize : UInt32) : ofSize? rawSize = some (ofSize rawSize) := by
  have hmax : maxFrameSize.toNat = 2 ^ 30 := rfl
  unfold ofSize? ofSize
  by_cases hsize : maxFrameSize < rawSize
  · rw [if_pos hsize, if_pos hsize]
  · have hle : rawSize.toNat ≤ 2 ^ 30 := by
      rw [UInt32.lt_iff_toNat_lt] at hsize
      omega
    rw [if_neg hsize, if_neg hsize, Checked.alignTo?_eq hle]
    rfl

theorem ofSlots?_eq (slots : ℕ) : ofSlots? slots = some (ofSlots slots) := by
  have h8 : slotSize.toNat = 8 := rfl
  have hproduct : UInt32.ofNat slots * slotSize = UInt32.ofNat (slots * 8) :=
    (UInt32.ofNat_mul slots 8).symm
  rw [ofSlots?, ofSlots, h8]
  by_cases hcount : slots < 0x100000000
  · have hnat : (UInt32.ofNat slots).toNat = slots := UInt32.toNat_ofNat_of_lt' hcount
    rw [if_pos hcount, Checked.mul?, hnat, h8, hproduct]
    by_cases hsize : slots * 8 < 0x100000000
    · simp only [if_pos hsize]
      exact ofSize?_eq _
    · simp only [if_neg hsize]
  · rw [if_neg hcount, if_neg (by omega)]

/-! ## Steps -/

theorem pos_of_mem_spSteps {f : Frame} {n : UInt32} (h : n ∈ f.spSteps) : 0 < n.toNat := by
  rw [spSteps, List.mem_append] at h
  rcases h with h | h
  · rw [List.eq_of_mem_replicate h]
    decide
  · split at h
    · next hpos =>
      rw [List.mem_singleton.mp h]
      exact UInt32.lt_iff_toNat_lt.mp hpos
    · exact absurd h List.not_mem_nil

theorem isLeast_localsSize {slots : ℕ} {f : Frame} (h : ofSlots slots = .ok f) :
    IsLeast {n | 16 ∣ n ∧ 8 * slots ≤ n} f.localsSize.toNat := by
  obtain ⟨-, hlocals⟩ := ofSlots_ok h
  refine ⟨⟨by omega, by omega⟩, ?_⟩
  rintro n ⟨hdvd, hle⟩
  omega

end Frame

/-! ## Opening and closing -/

/-- `t` has the stack and frame pointers of `s` and the same 16 bytes at the frame pointer. -/
structure LeavesFrame (s t : State) : Prop where
  sp : t.reg .sp = s.reg .sp
  fp : t.reg .fp = s.reg .fp
  record : ∀ b ∈ Area (s.reg .fp) 0 16, t.mem b = s.mem b

namespace Frame
variable {env : Env} {f : Frame} {s t : State}

/-- What is found in the frame record is what the registers held at entry. -/
theorem epilogue_inverse (h : LeavesFrame (execs env f.prologue s) t) :
    (execs env f.epilogue t).reg .sp = s.reg .sp ∧ (execs env f.epilogue t).reg .fp = s.reg .fp ∧
      (execs env f.epilogue t).reg .lr = s.reg .lr := by
  have hopened := opened_prologue env f s
  -- the body keeps the record, so the epilogue reads from it what the prologue wrote
  have hkept := h.record
  rw [hopened.pointer] at hkept
  have hclosed := hopened.closed h.sp hkept env
  exact ⟨hclosed.sp, hclosed.fp, hclosed.lr⟩

theorem reaches_ret {code body rest : List Line}
    (h : Reaches env code (body ++ (f.epilogue.map .inst ++ rest), execs env f.prologue s)
      (f.epilogue.map .inst ++ rest, t)) :
    Reaches env code (f.prologue.map .inst ++ (body ++ (f.epilogue.map .inst ++ rest)), s)
      (.inst .ret :: rest, execs env f.epilogue t) :=
  ((reaches_prologue env code _ f s).trans h).trans (reaches_epilogue env code rest f t)

end Frame

/-! ## All frames -/

/-- The frame holds this many slots; it is reserved in steps that one instruction can take, and
closing it after any code that leaves its record alone brings back what was there before. -/
structure Frame.Reserves (f : Frame) (slots : ℕ) : Prop where
  raw : f.rawSize.toNat = 8 * slots
  locals : IsLeast {n | 16 ∣ n ∧ 8 * slots ≤ n} f.localsSize.toNat
  total : Checked.add? frameRecordSize f.localsSize = some f.totalSize
  steps : ∃ steps : List UInt32,
    f.prologue = [.subImm .sp .sp 16, .stp .fp .lr .sp, .mov .fp .sp]
      ++ steps.map (.subImm .sp .sp) ∧
    f.epilogue = steps.map (.addImm .sp .sp) ++ [.ldp .fp .lr .sp, .addImm .sp .sp 16, .ret] ∧
    (∀ n ∈ steps, 0 < n.toNat ∧ 16 ∣ n.toNat ∧ n.toNat ≤ 4080) ∧
    (steps.map UInt32.toNat).sum = f.localsSize.toNat
  inverse : ∀ env s t, LeavesFrame (execs env f.prologue s) t →
    (execs env f.epilogue t).reg .sp = s.reg .sp ∧ (execs env f.epilogue t).reg .fp = s.reg .fp ∧
      (execs env f.epilogue t).reg .lr = s.reg .lr
  /-- In a run, the code between them takes the machine from one to the other. -/
  run : ∀ env code body rest s t,
    Reaches env code (body ++ (f.epilogue.map .inst ++ rest), execs env f.prologue s)
      (f.epilogue.map .inst ++ rest, t) →
    Reaches env code (f.prologue.map .inst ++ (body ++ (f.epilogue.map .inst ++ rest)), s)
      (.inst .ret :: rest, execs env f.epilogue t)

namespace Frame

theorem reserves_of_ofSlots {slots : ℕ} {f : Frame} (h : ofSlots slots = .ok f) :
    f.Reserves slots := by
  obtain ⟨hle, hlocals⟩ := ofSlots_ok h
  have hrecord : frameRecordSize.toNat = 16 := rfl
  have hleast := isLeast_localsSize h
  refine ⟨rawSize_of_ofSlots h, hleast, ?_, ⟨f.spSteps, rfl, rfl, fun n hn => ?_, sum_spSteps f⟩,
    fun env s t => epilogue_inverse, fun env code body rest s t => reaches_ret⟩
  · exact Checked.add?_eq (by rw [hrecord]; omega)
  · exact ⟨pos_of_mem_spSteps hn, dvd_of_mem_spSteps hleast.1.1 hn, le_of_mem_spSteps hn⟩

/-- There is a frame for up to `2 ^ 27` slots. For more of them the frame is too large, and never
misaligned; either way, nothing overflows. -/
theorem ofSlots_reserves (slots : ℕ) :
    ((∃ f, ofSlots slots = .ok f) ↔ slots ≤ 2 ^ 27) ∧
    (2 ^ 27 < slots →
      ofSlots slots = .error (.frameTooLarge (.ofNat (min (8 * slots) (2 ^ 32 - 1))))) ∧
    (∀ bytes, ofSlots slots ≠ .error (.misalignedFrame bytes)) ∧
    ofSlots? slots = some (ofSlots slots) ∧
    ∀ f, ofSlots slots = .ok f → f.Reserves slots := by
  refine ⟨⟨?_, exists_ofSlots⟩, ofSlots_of_lt, fun bytes h => ?_, ofSlots?_eq slots,
    fun f => reserves_of_ofSlots⟩
  · rintro ⟨f, h⟩
    obtain ⟨hle, -⟩ := ofSlots_ok h
    omega
  · by_cases hle : slots ≤ 2 ^ 27
    · obtain ⟨f, hf⟩ := exists_ofSlots hle
      rw [hf] at h
      cases h
    · rw [ofSlots_of_lt (by omega)] at h
      cases h

def entryState : State :=
  ⟨fun r => if r = .sp then 0x100000 else if r = .fp then 0x100040 else if r = .lr then 0x400
    else 7, ⟨false, false, false, false⟩, fun _ => 0, []⟩

/-- The machine after the prologue of a frame, a write to its first slot and a call. -/
def usedFrame (f : Frame) : State :=
  ((execs incEnv f.prologue entryState).store (addr ((execs incEnv f.prologue entryState).reg .fp)
    (-8)) 5).set .lr 0x404

theorem leavesFrame_usedFrame (f : Frame) :
    LeavesFrame (execs incEnv f.prologue entryState) (usedFrame f) := by
  refine ⟨State.reg_set_of_ne _ _ (by decide), State.reg_set_of_ne _ _ (by decide), ?_⟩
  rintro b ⟨x, hlo, hhi, rfl⟩
  refine Mem.write_of_le ?_
  rw [toNat_addr_sub]
  omega

/-- A frame that is reserved in three steps, and its neighbours at the limit. -/
theorem ofSlots_reserves_threeSteps :
    (∃ f, ofSlots 1100 = .ok f ∧ f.spSteps = [4080, 4080, 640] ∧ f.Reserves 1100 ∧
      (execs incEnv f.epilogue (usedFrame f)).reg .sp = 0x100000 ∧
      (execs incEnv f.epilogue (usedFrame f)).reg .fp = 0x100040 ∧
      (execs incEnv f.epilogue (usedFrame f)).reg .lr = 0x400) ∧
    (∃ f, ofSlots (2 ^ 27) = .ok f) ∧
    ofSlots (2 ^ 27 + 1) = .error (.frameTooLarge 0x40000008) := by
  have hreserves := (ofSlots_reserves 1100).2.2.2.2 ⟨8800, 8800⟩ (by decide)
  refine ⟨⟨⟨8800, 8800⟩, by decide, by decide, hreserves,
    hreserves.inverse incEnv entryState _ (leavesFrame_usedFrame _)⟩, ?_, ?_⟩
  · exact (ofSlots_reserves (2 ^ 27)).1.mpr le_rfl
  · exact (ofSlots_reserves (2 ^ 27 + 1)).2.1 (by omega)

end Frame
end A64Lowering.A64
