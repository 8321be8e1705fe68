import Mathlib
import A64Lowering.Proofs.Lowering.Homes
import A64Lowering.Proofs.Machine.Run

/-! # Opening and closing a frame

* `execs_stepsDown`, `execs_stepsUp`: the steps of the stack pointer through a frame.
* `Opened`, `opened_prologue`: the state after a prologue, with the frame record written.
* `Closed`, `Opened.closed`: the state after an epilogue, with what the frame record brings back.
* `reaches_prologue`, `reaches_epilogue`: the lines of both, up to the return. -/
namespace A64Lowering
set_option autoImplicit false

open A64

/-! ## Steps -/

section Steps
variable {env : Env} {s : A64.State}

theorem execs_stepsDown (steps : List UInt32) :
    execs env (steps.map (.subImm .sp .sp)) s
      = s.set .sp (addr (s.reg .sp) (-((steps.map UInt32.toNat).sum : ℕ))) := by
  induction steps generalizing s with
  | nil => simp
  | cons step steps ih =>
    rw [List.map_cons, execs_cons, ih, exec, A64.State.reg_set_self, A64.State.set_set,
      A64.State.get_sp, addr_addr]
    congr 2
    rw [List.map_cons, List.sum_cons]
    push_cast
    ring

theorem execs_stepsUp (steps : List UInt32) :
    execs env (steps.map (.addImm .sp .sp)) s
      = s.set .sp (addr (s.reg .sp) ((steps.map UInt32.toNat).sum : ℕ)) := by
  induction steps generalizing s with
  | nil => simp
  | cons step steps ih =>
    rw [List.map_cons, execs_cons, ih, exec, A64.State.reg_set_self, A64.State.set_set,
      A64.State.get_sp, addr_addr]
    congr 2

end Steps

/-! ## The frame record -/

/-- The prologue turns `s` into `t`: the frame record is written, and the frame is reserved. -/
structure Opened (f : A64.Frame) (s t : A64.State) : Prop where
  pointer : t.reg .fp = addr (s.reg .sp) (-16)
  sp : t.reg .sp = addr (addr (s.reg .sp) (-16)) (-f.localsSize.toNat)
  reg : ∀ r, r ≠ .fp → r ≠ .sp → t.reg r = s.reg r
  mem : t.mem = (s.mem.write (addr (s.reg .sp) (-16)) (s.reg .fp)).write (addr (s.reg .sp) (-8))
    (s.reg .lr)
  log : t.log = s.log ++ [.write (addr (s.reg .sp) (-16)) (s.reg .fp)]
    ++ [.write (addr (s.reg .sp) (-8)) (s.reg .lr)]

theorem execs_record (env : Env) (s : A64.State) :
    execs env [.subImm .sp .sp frameRecordSize, .stp .fp .lr .sp, .mov .fp .sp] s
      = (((s.set .sp (addr (s.reg .sp) (-16))).store (addr (s.reg .sp) (-16)) (s.reg .fp)).store
          (addr (s.reg .sp) (-8)) (s.reg .lr)).set .fp (addr (s.reg .sp) (-16)) := by
  have hrecord : (frameRecordSize.toNat : ℤ) = 16 := rfl
  have hsub : exec env s (.subImm .sp .sp frameRecordSize)
      = s.set .sp (addr (s.reg .sp) (-16)) := by
    rw [exec, hrecord, A64.State.get_sp]
  have hsp : (s.set .sp (addr (s.reg .sp) (-16))).get .sp = addr (s.reg .sp) (-16) :=
    s.reg_set_self .sp (addr (s.reg .sp) (-16))
  have hfp : (s.set .sp (addr (s.reg .sp) (-16))).get .fp = s.reg .fp :=
    s.reg_set_of_ne (addr (s.reg .sp) (-16)) (by decide)
  have hlr : (s.set .sp (addr (s.reg .sp) (-16))).get .lr = s.reg .lr :=
    s.reg_set_of_ne (addr (s.reg .sp) (-16)) (by decide)
  rw [execs_cons, execs_cons, execs_cons, execs_nil, hsub, exec, exec, hsp, hfp, hlr, addr_addr,
    show (-16 + 8 : ℤ) = -8 from rfl, A64.State.get_sp, A64.State.reg_store, A64.State.reg_store,
    A64.State.reg_set_self]

theorem opened_prologue (env : Env) (f : A64.Frame) (s : A64.State) :
    Opened f s (execs env f.prologue s) := by
  rw [A64.Frame.prologue, execs_append, execs_stepsDown, A64.Frame.sum_spSteps, execs_record]
  set t := ((s.set .sp (addr (s.reg .sp) (-16))).store (addr (s.reg .sp) (-16)) (s.reg .fp)).store
    (addr (s.reg .sp) (-8)) (s.reg .lr) with ht
  have hsp : (t.set .fp (addr (s.reg .sp) (-16))).reg .sp = addr (s.reg .sp) (-16) := by
    rw [A64.State.reg_set_of_ne t _ (show Reg.sp ≠ .fp by decide), ht, A64.State.reg_store,
      A64.State.reg_store, A64.State.reg_set_self]
  refine ⟨?_, ?_, fun r hfp hsp' => ?_, rfl, rfl⟩
  · rw [A64.State.reg_set_of_ne _ _ (show Reg.fp ≠ .sp by decide), A64.State.reg_set_self]
  · rw [A64.State.reg_set_self, hsp]
  · rw [A64.State.reg_set_of_ne _ _ hsp', A64.State.reg_set_of_ne _ _ hfp, ht,
      A64.State.reg_store, A64.State.reg_store, A64.State.reg_set_of_ne _ _ hsp']

/-- The frame record brings back what the registers held on entry. -/
theorem Opened.reads_record {f : A64.Frame} {s t u : A64.State} (h : Opened f s t)
    (hkept : ∀ b ∈ Area (addr (s.reg .sp) (-16)) 0 16, u.mem b = t.mem b) :
    u.mem.read (addr (s.reg .sp) (-16)) = s.reg .fp ∧
      u.mem.read (addr (addr (s.reg .sp) (-16)) 8) = s.reg .lr := by
  set fp := addr (s.reg .sp) (-16) with hfp
  have hrecord : addr (s.reg .sp) (-8) = addr fp 8 := by
    rw [hfp, addr_addr, show (-16 + 8 : ℤ) = -8 from rfl]
  have hread : ∀ x : ℤ, 0 ≤ x → x ≤ 8 → u.mem.read (addr fp x) = t.mem.read (addr fp x) :=
    fun x hlo hhi => Mem.read_congr fun b hb => hkept b (mem_area hb hlo (by omega))
  have hzero := hread 0 le_rfl (by omega)
  rw [addr_zero] at hzero
  rw [hzero, hread 8 (by omega) le_rfl, h.mem, hrecord]
  refine ⟨?_, Mem.read_write_self _ _ _⟩
  have happ : Apart (addr fp 0) (addr fp 8) := apart_addr (by omega) (by omega) (by omega)
  rw [addr_zero] at happ
  rw [Mem.read_write_of_apart happ, Mem.read_write_self]

/-! ## The end of a function -/

theorem execs_epilogue (env : Env) (f : A64.Frame) (u : A64.State) {fp : Word}
    (hsp : u.reg .sp = addr fp (-f.localsSize.toNat)) :
    execs env f.epilogue u
      = (((u.set .sp fp).set .fp (u.mem.read fp)).set .lr (u.mem.read (addr fp 8))).set .sp
          (addr fp 16) := by
  have hrecord : (frameRecordSize.toNat : ℤ) = 16 := rfl
  have hret : ∀ v : A64.State, exec env v .ret = v := fun _ => rfl
  have hup : addr (u.reg .sp) (f.localsSize.toNat : ℕ) = fp := by
    rw [hsp, addr_addr, neg_add_cancel, addr_zero]
  have hget : (u.set .sp fp).get .sp = fp := u.reg_set_self .sp fp
  have hget' : (((u.set .sp fp).set .fp (u.mem.read fp)).set .lr (u.mem.read (addr fp 8))).get .sp
      = fp := by
    rw [A64.State.get_sp, A64.State.reg_set_of_ne _ _ (show Reg.sp ≠ .lr by decide),
      A64.State.reg_set_of_ne _ _ (show Reg.sp ≠ .fp by decide), A64.State.reg_set_self]
  rw [Frame.epilogue, execs_append, execs_stepsUp, A64.Frame.sum_spSteps, hup, execs_cons,
    execs_cons, execs_cons, execs_nil, hret, exec, exec, hget, A64.State.mem_set, hget', hrecord]

/-- The epilogue turns `u` into `v`, at the return of a function that was entered in `s`. -/
structure Closed (s u v : A64.State) : Prop where
  sp : v.reg .sp = s.reg .sp
  fp : v.reg .fp = s.reg .fp
  lr : v.reg .lr = s.reg .lr
  reg : ∀ r, r ≠ .sp → r ≠ .fp → r ≠ .lr → v.reg r = u.reg r
  mem : v.mem = u.mem
  log : v.log = u.log

section Closed
variable {f : A64.Frame} {s t u v : A64.State}

/-- Whatever the body does, it is enough that it keeps the stack pointer and the frame record. -/
theorem Opened.closed (h : Opened f s t) (hsp : u.reg .sp = t.reg .sp)
    (hkept : ∀ b ∈ Area (addr (s.reg .sp) (-16)) 0 16, u.mem b = t.mem b) (env : Env) :
    Closed s u (execs env f.epilogue u) := by
  obtain ⟨hfp, hlr⟩ := h.reads_record hkept
  rw [execs_epilogue env f u (hsp.trans h.sp), hfp, hlr, addr_addr,
    show (-16 + 16 : ℤ) = 0 from rfl, addr_zero]
  refine ⟨A64.State.reg_set_self _ _ _, ?_, ?_, fun r hsp hfp hlr => ?_, rfl, rfl⟩
  · rw [A64.State.reg_set_of_ne _ _ (show Reg.fp ≠ .sp by decide),
      A64.State.reg_set_of_ne _ _ (show Reg.fp ≠ .lr by decide), A64.State.reg_set_self]
  · rw [A64.State.reg_set_of_ne _ _ (show Reg.lr ≠ .sp by decide), A64.State.reg_set_self]
  · rw [A64.State.reg_set_of_ne _ _ hsp, A64.State.reg_set_of_ne _ _ hlr,
      A64.State.reg_set_of_ne _ _ hfp, A64.State.reg_set_of_ne _ _ hsp]

/-- The callee-saved registers are as on entry if the body keeps them. -/
theorem Closed.keeps_saved (h : Closed s u v) (hopened : Opened f s t)
    (hkept : ∀ r ∈ Reg.among 19 29, u.reg r = t.reg r) :
    ∀ r ∈ Reg.among 19 29, v.reg r = s.reg r := by
  intro r hr
  by_cases hfp : r = .fp
  · rw [hfp, h.fp]
  · have hsp : r ≠ .sp := fun e => Reg.sp_notMem_among 19 29 (e ▸ hr)
    have hlr : r ≠ .lr :=
      Reg.ne_of_mem_among hr (Reg.x_mem_among.mpr ⟨le_rfl, le_rfl⟩) (by decide)
    rw [h.reg r hsp hfp hlr, hkept r hr, hopened.reg r hfp hsp]

end Closed

/-! ## Lines -/

theorem reaches_prologue (env : Env) (code rest : List Line) (f : A64.Frame) (s : A64.State) :
    A64.Reaches env code (f.prologue.map .inst ++ rest, s) (rest, execs env f.prologue s) := by
  refine reaches_execs ?_ rest s
  rw [Frame.prologue, List.forall_mem_append, List.forall_mem_map]
  exact ⟨by decide, fun _ _ => rfl⟩

theorem reaches_epilogue (env : Env) (code rest : List Line) (f : A64.Frame) (u : A64.State) :
    A64.Reaches env code (f.epilogue.map .inst ++ rest, u)
      (.inst .ret :: rest, execs env f.epilogue u) := by
  have hfalls : ∀ i ∈ f.spSteps.map (Inst.addImm .sp .sp)
      ++ [.ldp .fp .lr .sp, .addImm .sp .sp frameRecordSize], i.falls = true := by
    rw [List.forall_mem_append, List.forall_mem_map]
    exact ⟨fun _ _ => rfl, by decide⟩
  have hcode : f.epilogue = (f.spSteps.map (Inst.addImm .sp .sp)
      ++ [.ldp .fp .lr .sp, .addImm .sp .sp frameRecordSize]) ++ [.ret] := by
    simp [Frame.epilogue]
  have hret : ∀ v, execs env [.ret] v = v := fun _ => rfl
  rw [hcode, execs_append, hret, List.map_append, List.append_assoc]
  exact reaches_execs hfalls _ u

end A64Lowering
