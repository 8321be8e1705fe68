import Mathlib
import A64Lowering.Proofs.Lowering.Faults

/-! # The outcome of lowering an instruction

* `Site.Accepts`, `Site.Blames`: what lowering wants of an instruction, and the first thing that is
  wrong with it, told by what the instruction names, reads and defines.
* `Scratch.Steady`: a step with the same answer in every workspace.
* `lower_outcome`: with two free registers, lowering accepts or blames an instruction as its operands
  say; where it needs no register, the answer does not depend on the pool. -/
namespace A64Lowering
set_option autoImplicit false

open A64 Ir

/-! ## What is wrong with an instruction -/

/-- The instruction names a global variable, passes no more arguments than there are argument
registers, and all registers that it reads and defines have homes. -/
structure Site.Accepts (s : Site) (inst : Instruction) : Prop where
  global : ∀ name, inst.global? = some name → name ∈ s.globals
  args : ∀ target function args, inst = .call target function args → args.length ≤ 8
  homes : ∀ r ∈ inst.sources ++ inst.targets, s.layout.home? r ≠ none

/-- The fault of an instruction that is not accepted: of the registers that it reads and then of the
one that it defines, the first without a home is reported, if nothing else is wrong. -/
inductive Site.Blames (s : Site) (inst : Instruction) : LoweringFault → Prop where
  | unknownGlobal {name : String} (h : inst.global? = some name) (hname : name ∉ s.globals) :
      Blames s inst (.unknownGlobal name s.function)
  | tooManyArguments {target : Option VReg} {function : String} {args : List VReg}
      (h : inst = .call target function args) (hargs : 8 < args.length) :
      Blames s inst (.convention (.tooManyArguments args.length 8))
  | undefinedRegister {before after : List VReg} {r : VReg}
      (hglobal : ∀ name, inst.global? = some name → name ∈ s.globals)
      (hargs : ∀ target function args, inst = .call target function args → args.length ≤ 8)
      (hregs : inst.sources ++ inst.targets = before ++ r :: after)
      (hbefore : ∀ q ∈ before, s.layout.home? q ≠ none) (hr : s.layout.home? r = none) :
      Blames s inst (.undefinedRegister r s.function)

section Faults
variable {s : Site} {inst : Instruction} {fault : LoweringFault}

theorem Site.fault?_eq_none : s.fault? inst = none ↔ s.Accepts inst := by
  rw [fault?, Option.or_eq_none_iff, Option.or_eq_none_iff, Option.bind_eq_none_iff,
    overfull?_eq_none, List.findSome?_eq_none_iff]
  simp only [unknown?_eq_none, homeless?_eq_none]
  exact ⟨fun ⟨hglobal, hargs, hhomes⟩ => ⟨hglobal, hargs, hhomes⟩,
    fun ⟨hglobal, hargs, hhomes⟩ => ⟨hglobal, hargs, hhomes⟩⟩

theorem Site.fault?_eq_some : s.fault? inst = some fault ↔ s.Blames inst fault := by
  rw [fault?, Option.or_eq_some_iff, Option.or_eq_some_iff, Option.bind_eq_some_iff,
    Option.bind_eq_none_iff, overfull?_eq_none, overfull?_eq_some, List.findSome?_eq_some_iff]
  simp only [unknown?_eq_none, unknown?_eq_some, homeless?_eq_none, homeless?_eq_some]
  constructor
  · rintro (⟨name, hname, hunknown, rfl⟩ | ⟨hglobal, ⟨_, _, _, hcall, hlt, rfl⟩
      | ⟨hargs, before, r, after, hregs, ⟨hr, rfl⟩, hbefore⟩⟩)
    · exact .unknownGlobal hname hunknown
    · exact .tooManyArguments hcall hlt
    · exact .undefinedRegister hglobal hargs hregs hbefore hr
  · rintro (⟨hname, hunknown⟩ | ⟨hcall, hlt⟩ | ⟨hglobal, hargs, hregs, hbefore, hr⟩)
    · exact .inl ⟨_, hname, hunknown, rfl⟩
    · refine .inr ⟨?_, .inl ⟨_, _, _, hcall, hlt, rfl⟩⟩
      intro name hname
      rw [hcall] at hname
      cases hname
    · exact .inr ⟨hglobal, .inr ⟨hargs, _, _, _, hregs, ⟨hr, rfl⟩, hbefore⟩⟩

end Faults

/-! ## Steps that need no register -/

namespace Scratch
variable {α β : Type}

/-- The answer of the step does not depend on the workspace. -/
def Steady (x : Scratch α) : Prop := ∀ w w', (x.run w).1 = (x.run w').1

theorem steady_pure (a : α) : Steady (pure a) := fun _ _ => rfl

theorem steady_ofExcept (e : Except LoweringFault α) : Steady (ofExcept e) := fun _ _ => rfl

theorem Steady.bind {x : Scratch α} {f : α → Scratch β} (hx : Steady x)
    (hf : ∀ a, Steady (f a)) : Steady (x >>= f) := by
  intro w w'
  have hanswer := hx w w'
  rw [run_bind, run_bind]
  rcases hrun : x.run w with ⟨fault | a, mid⟩ <;> rcases hrun' : x.run w' with ⟨fault' | a', mid'⟩
    <;> rw [hrun, hrun'] at hanswer <;> cases hanswer
  · rfl
  · exact hf a mid mid'

end Scratch

namespace Site
variable {s : Site} {inst : Instruction}

open Scratch (Steady steady_pure steady_ofExcept)

theorem steady_operate (h : inst.need = 0) : Steady (s.operate inst) := by
  cases inst with
  | new _ _ _ | delete _ | print _ =>
    exact (steady_ofExcept _).bind fun _ => steady_pure _
  | label _ | branch _ => exact steady_pure _
  | call _ _ _ => exact steady_ofExcept _
  | ret value =>
    cases value with
    | none => exact steady_pure _
    | some value => exact (steady_ofExcept _).bind fun _ => steady_pure _
  | _ => cases h

theorem steady_lines (h : inst.need = 0) : Steady (s.lines inst) := by
  by_cases hinst : ∃ name, inst = .label name
  · obtain ⟨name, rfl⟩ := hinst
    exact steady_pure _
  · rw [lines_eq fun name h => hinst ⟨name, h⟩]
    exact (steady_operate h).bind fun _ => steady_pure _

theorem steady_lower (h : inst.need = 0) : Steady (s.lower inst) := fun w w' =>
  congrArg (Except.map (s.annotation inst ++ ·)) (steady_lines h w w')

/-- Two free registers are enough for every instruction. With as many as it needs, an instruction is
lowered if it is accepted, and fails as it is blamed otherwise; the pool never shows. Instructions
that need none have the same answer with any pool. -/
theorem lower_outcome (s : Site) (inst : Instruction) :
    inst.need ≤ 2 ∧
    (∀ w, inst.need ≤ w.pool.available →
      (∀ fault, ((s.lower inst).run w).1 = .error fault ↔ s.Blames inst fault) ∧
      ((∃ lines, ((s.lower inst).run w).1 = .ok lines) ↔ s.Accepts inst)) ∧
    (inst.need = 0 → ∀ w w', ((s.lower inst).run w).1 = ((s.lower inst).run w').1) := by
  refine ⟨inst.need_le, fun w hw => ⟨fun fault => ?_, ?_⟩, steady_lower⟩
  · rw [← faultOf?_eq_some, faultOf?_lower hw, fault?_eq_some]
  · rw [← faultOf?_eq_none, faultOf?_lower hw, fault?_eq_none]

/-- A pool with two free registers. -/
def twoFree : Pool := ⟨.replicate 32 false, .ofFn fun r => r.val != 3 && r.val != 5⟩

/-- A pool with none. -/
def noneFree : Pool := ⟨.replicate 32 true, .replicate 32 false⟩

/-- The second operand is missed before the target, and a call to free memory needs no register. -/
theorem lower_outcome_twoFree :
    twoFree.available = 2 ∧
    ((oneSlot.lower (.binary .add ⟨8⟩ ⟨0⟩ (.reg ⟨7⟩))).run ⟨twoFree, []⟩).1
      = .error (.undefinedRegister ⟨7⟩ "f") ∧
    noneFree.available = 0 ∧
    ((oneSlot.lower (.delete ⟨0⟩)).run ⟨noneFree, []⟩).1
      = ((oneSlot.lower (.delete ⟨0⟩)).run ⟨twoFree, []⟩).1 := by
  have hfree : twoFree.available = 2 := by decide
  have hbinary := lower_outcome oneSlot (.binary .add ⟨8⟩ ⟨0⟩ (.reg ⟨7⟩))
  have hdelete := lower_outcome oneSlot (.delete ⟨0⟩)
  refine ⟨hfree, (hbinary.2.1 ⟨twoFree, []⟩ hfree.ge).1 _ |>.mpr ?_, by decide, hdelete.2.2 rfl _ _⟩
  exact @Blames.undefinedRegister oneSlot _ [⟨0⟩] [⟨8⟩] ⟨7⟩ nofun nofun rfl (by decide) rfl

end Site
end A64Lowering
