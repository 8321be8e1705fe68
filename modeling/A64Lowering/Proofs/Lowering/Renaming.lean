import Mathlib
import A64Lowering.Proofs.Lowering.Homes
import A64Lowering.Proofs.Lowering.Sequence

/-! # Lowering does not see the numbers of registers

Registers are only ever compared with each other, so renaming them apart changes no line.

* `Fragment.rename`, `Fragment.regs`: another name for each register, and the registers there are.
* `Scratch.mapFault`: a step with its faults told differently.
* `Layout.ofFragment_rename`, `Layout.home?_rename`: the renamed registers have the old homes.
* `Site.Renamed.operate`: an instruction is lowered as before, apart from the name in its fault.
* `lowerFragment_rename`: so is a fragment. -/
namespace A64Lowering
set_option autoImplicit false

open A64 Ir

/-! ## Renaming -/

namespace Ir
variable (ρ : VReg → VReg)

def Operand.rename : Operand → Operand
  | reg r => reg (ρ r)
  | imm n => imm n

def Instruction.rename : Instruction → Instruction
  | mov target operand => mov (ρ target) (operand.rename ρ)
  | binary op target lhs rhs => binary op (ρ target) (ρ lhs) (rhs.rename ρ)
  | unary op target source => unary op (ρ target) (ρ source)
  | compare cond target lhs rhs => compare cond (ρ target) (ρ lhs) (rhs.rename ρ)
  | loadGlobal target name => loadGlobal (ρ target) name
  | storeGlobal source name => storeGlobal (ρ source) name
  | loadField target base field index => loadField (ρ target) (ρ base) field index
  | storeField source base field index => storeField (ρ source) (ρ base) field index
  | new target typeName size => new (ρ target) typeName size
  | delete source => delete (ρ source)
  | print source => print (ρ source)
  | label name => label name
  | branch name => branch name
  | condBranch condition onTrue name => condBranch (ρ condition) onTrue name
  | call target function args => call (target.map ρ) function (args.map ρ)
  | ret value => ret (value.map ρ)

def Fragment.rename (frag : Fragment) : Fragment :=
  ⟨frag.label, frag.params.map ρ, frag.body.map (·.rename ρ)⟩

def Instruction.regs (inst : Instruction) : List VReg := inst.sources ++ inst.targets

def Fragment.regs (frag : Fragment) : List VReg := frag.params ++ frag.body.flatMap (·.regs)

theorem Instruction.target?_rename (inst : Instruction) :
    (inst.rename ρ).target? = inst.target?.map ρ := by
  cases inst <;> rfl

end Ir

def LoweringFault.rename (ρ : VReg → VReg) : LoweringFault → LoweringFault
  | undefinedRegister r function => undefinedRegister (ρ r) function
  | pool fault => pool fault
  | convention fault => convention fault
  | unknownGlobal name function => unknownGlobal name function

/-! ## Lists of renamed registers -/

theorem filter_map_of_eq {α β : Type} {f : α → β} {l : List α} {p : β → Bool} {q : α → Bool}
    (h : ∀ a ∈ l, p (f a) = q a) : (l.map f).filter p = (l.filter q).map f := by
  rw [List.filter_map]
  exact congrArg (List.map f) (List.filter_congr h)

section Lists
variable {α : Type} [DecidableEq α] {ρ : α → α} {s : Set α} {l : List α} {a : α}

theorem idxOf?_map_of_injOn (hρ : Set.InjOn ρ s) (hl : ∀ b ∈ l, b ∈ s) (ha : a ∈ s) :
    (l.map ρ).idxOf? (ρ a) = l.idxOf? a := by
  induction l with
  | nil => rfl
  | cons b l ih =>
    have hb : (ρ b == ρ a) = (b == a) := by
      rw [Bool.eq_iff_iff, beq_iff_eq, beq_iff_eq, hρ.eq_iff (hl b List.mem_cons_self) ha]
    rw [List.map_cons, List.idxOf?_cons, List.idxOf?_cons, hb,
      ih fun c hc => hl c (List.mem_cons_of_mem b hc)]

theorem contains_map_of_injOn (hρ : Set.InjOn ρ s) (hl : ∀ b ∈ l, b ∈ s) (ha : a ∈ s) :
    (l.map ρ).contains (ρ a) = l.contains a := by
  rw [Bool.eq_iff_iff, List.contains_iff_mem, List.contains_iff_mem, List.mem_map]
  constructor
  · rintro ⟨b, hb, heq⟩
    rwa [← hρ (hl b hb) ha heq]
  · exact fun hmem => ⟨a, hmem, rfl⟩

/-- A renaming keeps which of the elements are the first of their kind. -/
theorem eraseDups_map_of_injOn (hρ : Set.InjOn ρ s) :
    ∀ l : List α, (∀ b ∈ l, b ∈ s) → (l.map ρ).eraseDups = l.eraseDups.map ρ
  | [], _ => by rw [List.map_nil, List.eraseDups_nil, List.map_nil]
  | b :: l, hl => by
    have hb : b ∈ s := hl b List.mem_cons_self
    have hrest : ∀ c ∈ l, c ∈ s := fun c hc => hl c (List.mem_cons_of_mem b hc)
    have hlength : (l.filter fun c => !c == b).length ≤ l.length := List.length_filter_le _ _
    have hfilter : ((l.map ρ).filter fun c => !c == ρ b) = (l.filter fun c => !c == b).map ρ := by
      apply filter_map_of_eq
      intro c hc
      rw [Bool.eq_iff_iff]
      simp [hρ.eq_iff (hrest c hc) hb]
    rw [List.map_cons, List.eraseDups_cons, List.eraseDups_cons, List.map_cons, hfilter,
      eraseDups_map_of_injOn hρ _ fun c hc => hrest c (List.mem_of_mem_filter hc)]
termination_by l => l.length
decreasing_by simp; omega

end Lists

/-! ## Steps with other faults -/

section Answers
variable {α β ε ε' : Type} (f : ε → ε')

theorem mapError_bind (x : Except ε α) (g : α → Except ε β) :
    (x >>= g).mapError f = x.mapError f >>= fun a => (g a).mapError f := by
  cases x <;> rfl

theorem mapError_map (g : α → β) (x : Except ε α) :
    (x.map g).mapError f = (x.mapError f).map g := by
  cases x <;> rfl

theorem mapM_map_eq_mapError {γ : Type} {rename : α → β} {g : β → Except ε' γ}
    {g' : α → Except ε γ} {as : List α} (h : ∀ a ∈ as, g (rename a) = (g' a).mapError f) :
    (as.map rename).mapM g = (as.mapM g').mapError f := by
  induction as with
  | nil => rfl
  | cons a as ih =>
    rw [List.map_cons, List.mapM_cons, List.mapM_cons, mapError_bind, h a List.mem_cons_self,
      ih fun b hb => h b (List.mem_cons_of_mem a hb)]
    congr 1
    funext c
    cases as.mapM g' <;> rfl

end Answers

namespace Scratch
variable {α β : Type} (f : LoweringFault → LoweringFault)

/-- The step with its faults told differently. -/
def mapFault (x : Scratch α) : Scratch α :=
  ExceptT.mk fun w => ((x.run w).1.mapError f, (x.run w).2)

theorem run_mapFault (x : Scratch α) (w : Workspace) :
    (x.mapFault f).run w = ((x.run w).1.mapError f, (x.run w).2) := rfl

theorem mapFault_pure (a : α) : mapFault f (pure a) = pure a := rfl

theorem mapFault_ofExcept (answer : Except LoweringFault α) :
    mapFault f (ofExcept answer) = ofExcept (answer.mapError f) := rfl

theorem mapFault_bind (x : Scratch α) (g : α → Scratch β) :
    mapFault f (x >>= g) = mapFault f x >>= fun a => mapFault f (g a) := by
  refine ExceptT.ext (funext fun w => ?_)
  rw [run_mapFault, run_bind, run_bind, run_mapFault]
  rcases x.run w with ⟨fault | a, after⟩ <;> rfl

theorem mapFault_acquire (ρ : VReg → VReg) : mapFault (·.rename ρ) acquire = acquire := by
  refine ExceptT.ext (funext fun w => ?_)
  rw [run_mapFault, acquire, ExceptT.run_mk]
  cases w.pool.acquire <;> rfl

end Scratch

/-! ## Layouts -/

theorem Ir.Fragment.slotRegs_rename {ρ : VReg → VReg} {s : Set VReg} (hρ : Set.InjOn ρ s)
    {frag : Fragment} (hregs : ∀ r ∈ frag.regs, r ∈ s) :
    (frag.rename ρ).slotRegs = frag.slotRegs.map ρ := by
  have hparam : ∀ r ∈ frag.params, r ∈ s := fun r hr => hregs r (List.mem_append_left _ hr)
  have htarget : ∀ r ∈ frag.body.filterMap (·.target?), r ∈ s := by
    intro r hr
    obtain ⟨inst, hinst, hr⟩ := List.mem_filterMap.mp hr
    apply hregs r
    apply List.mem_append_right
    exact List.mem_flatMap_of_mem hinst (List.mem_append_right _ (Option.mem_toList.mpr hr))
  have htargets : (frag.body.map (·.rename ρ)).filterMap (·.target?)
      = (frag.body.filterMap (·.target?)).map ρ := by
    rw [List.filterMap_map, List.map_filterMap]
    exact congrArg (List.filterMap · frag.body) (funext fun inst => inst.target?_rename ρ)
  rw [slotRegs, rename, htargets, slotRegs, filter_map_of_eq, eraseDups_map_of_injOn hρ]
  · exact fun r hr => htarget r (List.mem_of_mem_filter hr)
  · intro r hr
    rw [contains_map_of_injOn hρ hparam (htarget r hr)]

namespace Layout

def rename (ρ : VReg → VReg) (l : Layout) : Layout :=
  ⟨l.params.map ρ, l.slots.map ρ, l.frame, by simpa using l.params_length⟩

/-- The layout has no other registers. -/
def Within (l : Layout) (s : Set VReg) : Prop := (∀ r ∈ l.params, r ∈ s) ∧ ∀ r ∈ l.slots, r ∈ s

theorem ofFragment_rename {ρ : VReg → VReg} {s : Set VReg} (hρ : Set.InjOn ρ s)
    {frag : Fragment} (hregs : ∀ r ∈ frag.regs, r ∈ s) :
    ofFragment (frag.rename ρ) = (ofFragment frag).map (·.rename ρ) := by
  have hlength : (frag.rename ρ).params.length = frag.params.length := by
    simp [Fragment.rename]
  have hslots := Fragment.slotRegs_rename hρ hregs
  rw [ofFragment, ofFragment, hslots, List.length_map]
  by_cases h : frag.params.length ≤ 8
  · rw [dif_pos h, dif_pos (hlength.trans_le h)]
    cases A64.Frame.ofSlots frag.slotRegs.length <;> rfl
  · rw [dif_neg h, dif_neg (hlength ▸ h), hlength]
    rfl

section Homes
variable {ρ : VReg → VReg} {s : Set VReg} {l : Layout} {r : VReg}

theorem val_paramIndex? (l : Layout) (r : VReg) :
    (l.paramIndex? r).map Fin.val = l.params.idxOf? r := by
  rw [paramIndex?, List.idxOf?_eq_map_finIdxOf?_val, Option.map_map]
  rfl

theorem paramIndex?_rename (hρ : Set.InjOn ρ s) (hl : l.Within s) (hr : r ∈ s) :
    (l.rename ρ).paramIndex? (ρ r) = l.paramIndex? r := by
  apply Option.map_injective Fin.val_injective
  rw [val_paramIndex?, val_paramIndex?]
  exact idxOf?_map_of_injOn hρ hl.1 hr

theorem home?_rename (hρ : Set.InjOn ρ s) (hl : l.Within s) (hr : r ∈ s) :
    (l.rename ρ).home? (ρ r) = l.home? r := by
  have hslot : (l.rename ρ).slot? (ρ r) = l.slot? r :=
    congrArg (Option.map slotOffset) (idxOf?_map_of_injOn hρ hl.2 hr)
  rw [home?, home?, paramIndex?_rename hρ hl hr, hslot]

theorem paramIndices_rename (hρ : Set.InjOn ρ s) (hl : l.Within s) :
    (l.rename ρ).paramIndices = l.paramIndices := by
  have hparams : (l.rename ρ).params = l.params.map ρ := rfl
  rw [paramIndices, paramIndices, hparams]
  refine List.filter_congr fun i _ => ?_
  rw [List.any_map, Bool.eq_iff_iff, List.any_eq_true, List.any_eq_true]
  refine exists_congr fun r => and_congr_right fun hr => ?_
  rw [Function.comp_apply, paramIndex?_rename hρ hl (hl.1 r hr)]

end Homes
end Layout

/-! ## Instructions -/

/-- A site at which the registers have other names and the same homes. -/
structure Site.Renamed (ρ : VReg → VReg) (s t : Site) (regs : Set VReg) : Prop where
  function : t.function = s.function
  settings : t.settings = s.settings
  globals : t.globals = s.globals
  params : t.layout.paramIndices = s.layout.paramIndices
  homes : ∀ r ∈ regs, t.layout.home? (ρ r) = s.layout.home? r

namespace Site.Renamed
variable {ρ : VReg → VReg} {s t : Site} {regs : Set VReg} {r : VReg}

theorem home (h : s.Renamed ρ t regs) (hr : r ∈ regs) :
    t.home (ρ r) = (s.home r).mapError (·.rename ρ) := by
  rw [Site.home, Site.home, h.homes r hr, h.function]
  cases s.layout.home? r <;> rfl

/-- Whatever is made of homes stays. -/
theorem map_home {α : Type} (h : s.Renamed ρ t regs) (hr : r ∈ regs) (f : Home → α) :
    (t.home (ρ r)).map f = ((s.home r).map f).mapError (·.rename ρ) := by
  rw [h.home hr, mapError_map]

theorem load (h : s.Renamed ρ t regs) (hr : r ∈ regs) (dst : Reg) :
    t.load dst (ρ r) = (s.load dst r).mapError (·.rename ρ) :=
  h.map_home hr _

theorem store (h : s.Renamed ρ t regs) (hr : r ∈ regs) (src : Reg) :
    t.store src (ρ r) = (s.store src r).mapError (·.rename ρ) :=
  h.map_home hr _

theorem storeResult (h : s.Renamed ρ t regs) (hr : r ∈ regs) (src : Reg) :
    t.storeResult src (ρ r) = (s.storeResult src r).mapError (·.rename ρ) :=
  h.map_home hr _

theorem loadArg (h : s.Renamed ρ t regs) (hr : r ∈ regs) (dst : Reg) :
    t.loadArg dst (ρ r) = (s.loadArg dst r).mapError (·.rename ρ) :=
  h.map_home hr _

theorem checkGlobal (h : s.Renamed ρ t regs) (name : String) :
    t.checkGlobal name = (s.checkGlobal name).mapError (·.rename ρ) := by
  rw [Site.checkGlobal, Site.checkGlobal, h.globals, h.function]
  split <;> rfl

theorem saveParams (h : s.Renamed ρ t regs) : t.saveParams = s.saveParams := by
  rw [Site.saveParams, Site.saveParams, h.params]

theorem restoreParams (h : s.Renamed ρ t regs) : t.restoreParams = s.restoreParams := by
  rw [Site.restoreParams, Site.restoreParams, h.params]

theorem returnLabel (h : s.Renamed ρ t regs) : t.returnLabel = s.returnLabel := by
  rw [Site.returnLabel, Site.returnLabel, h.function]

open Scratch (mapFault mapFault_pure mapFault_bind mapFault_ofExcept mapFault_acquire)

theorem fetch (h : s.Renamed ρ t regs) (hr : r ∈ regs) :
    t.fetch (ρ r) = mapFault (·.rename ρ) (s.fetch r) := by
  simp only [Site.fetch, mapFault_bind, mapFault_acquire, mapFault_ofExcept, mapFault_pure,
    h.load hr]

theorem operand (h : s.Renamed ρ t regs) {operand : Operand} (hr : ∀ r ∈ operand.reg?, r ∈ regs) :
    t.operand (operand.rename ρ) = mapFault (·.rename ρ) (s.operand operand) := by
  cases operand with
  | reg r => exact h.fetch (hr r rfl)
  | imm n =>
    simp only [Operand.rename, Site.operand, mapFault_bind, mapFault_acquire, mapFault_pure]

theorem applyBinary (h : s.Renamed ρ t regs) {rhs : Operand} (hr : ∀ r ∈ rhs.reg?, r ∈ regs)
    (op : BinaryOp) (lhs : Reg) :
    t.applyBinary op lhs (rhs.rename ρ) = mapFault (·.rename ρ) (s.applyBinary op lhs rhs) := by
  have himmediate : immediateInst? op lhs (rhs.rename ρ) = immediateInst? op lhs rhs := by
    cases rhs <;> rfl
  rw [Site.applyBinary, Site.applyBinary, himmediate, h.operand hr]
  cases immediateInst? op lhs rhs with
  | some inst => rfl
  | none => simp only [mapFault_bind, mapFault_pure]

theorem loadArgs (h : s.Renamed ρ t regs) {args : List VReg} (hr : ∀ r ∈ args, r ∈ regs)
    (index : ℕ) :
    t.loadArgs index (args.map ρ) = (s.loadArgs index args).mapError (·.rename ρ) := by
  induction args generalizing index with
  | nil => rfl
  | cons arg args ih =>
    rw [List.map_cons, Site.loadArgs, Site.loadArgs, mapError_bind,
      h.loadArg (hr arg List.mem_cons_self), ih fun r hmem => hr r (List.mem_cons_of_mem arg hmem)]
    simp only [mapError_bind]
    rfl

theorem callFunction (h : s.Renamed ρ t regs) {target : Option VReg} {args : List VReg}
    (htarget : ∀ r ∈ target, r ∈ regs) (hargs : ∀ r ∈ args, r ∈ regs) (function : String) :
    t.callFunction (target.map ρ) function (args.map ρ)
      = (s.callFunction target function args).mapError (·.rename ρ) := by
  rw [Site.callFunction, Site.callFunction, List.length_map, h.loadArgs hargs, h.saveParams,
    h.restoreParams]
  split
  · cases target with
    | none =>
      simp only [mapError_bind]
      rfl
    | some r =>
      simp only [Option.map_some, h.storeResult (htarget r rfl), mapError_bind]
      rfl
  · rfl

/-- An instruction whose registers have their homes is lowered as before. -/
theorem operate (h : s.Renamed ρ t regs) {inst : Instruction}
    (hsource : ∀ r ∈ inst.sources, r ∈ regs) (htarget : ∀ r ∈ inst.target?, r ∈ regs) :
    t.operate (inst.rename ρ) = mapFault (·.rename ρ) (s.operate inst) := by
  cases inst with
  | mov target source =>
    have hreg : ∀ r ∈ source.reg?, r ∈ regs := fun r hr =>
      hsource r (Option.mem_toList.mpr hr)
    simp only [Instruction.rename, Site.operate, mapFault_bind, mapFault_ofExcept, mapFault_pure,
      h.operand hreg, h.store (htarget target rfl)]
  | binary op target lhs rhs =>
    have hreg : ∀ r ∈ rhs.reg?, r ∈ regs := fun r hr =>
      hsource r (List.mem_cons_of_mem _ (Option.mem_toList.mpr hr))
    simp only [Instruction.rename, Site.operate, mapFault_bind, mapFault_ofExcept, mapFault_pure,
      h.fetch (hsource lhs List.mem_cons_self), h.applyBinary hreg, h.store (htarget target rfl)]
  | unary op target source =>
    simp only [Instruction.rename, Site.operate, mapFault_bind, mapFault_ofExcept, mapFault_pure,
      h.fetch (hsource source List.mem_cons_self), h.store (htarget target rfl)]
  | compare cond target lhs rhs =>
    have hreg : ∀ r ∈ rhs.reg?, r ∈ regs := fun r hr =>
      hsource r (List.mem_cons_of_mem _ (Option.mem_toList.mpr hr))
    simp only [Instruction.rename, Site.operate, mapFault_bind, mapFault_ofExcept, mapFault_pure,
      h.fetch (hsource lhs List.mem_cons_self), h.operand hreg, h.store (htarget target rfl)]
  | loadGlobal target name =>
    simp only [Instruction.rename, Site.operate, mapFault_bind, mapFault_ofExcept, mapFault_pure,
      mapFault_acquire, h.checkGlobal, h.store (htarget target rfl)]
  | storeGlobal source name =>
    simp only [Instruction.rename, Site.operate, mapFault_bind, mapFault_ofExcept, mapFault_pure,
      mapFault_acquire, h.checkGlobal, h.fetch (hsource source List.mem_cons_self)]
  | loadField target base field index =>
    simp only [Instruction.rename, Site.operate, mapFault_bind, mapFault_ofExcept, mapFault_pure,
      h.fetch (hsource base List.mem_cons_self), h.store (htarget target rfl)]
  | storeField source base field index =>
    simp only [Instruction.rename, Site.operate, mapFault_bind, mapFault_pure,
      h.fetch (hsource source List.mem_cons_self),
      h.fetch (hsource base (List.mem_cons_of_mem _ List.mem_cons_self))]
  | new target typeName size =>
    simp only [Instruction.rename, Site.operate, mapFault_bind, mapFault_ofExcept, mapFault_pure,
      h.storeResult (htarget target rfl), h.saveParams, h.restoreParams, h.settings]
  | delete source =>
    simp only [Instruction.rename, Site.operate, mapFault_bind, mapFault_ofExcept, mapFault_pure,
      h.load (hsource source List.mem_cons_self), h.saveParams, h.restoreParams, h.settings]
  | print source =>
    simp only [Instruction.rename, Site.operate, mapFault_bind, mapFault_ofExcept, mapFault_pure,
      h.load (hsource source List.mem_cons_self), h.saveParams, h.restoreParams, h.settings]
  | label name | branch name => rfl
  | condBranch condition onTrue name =>
    simp only [Instruction.rename, Site.operate, mapFault_bind, mapFault_pure,
      h.fetch (hsource condition List.mem_cons_self)]
  | call target function args =>
    exact congrArg Scratch.ofExcept (h.callFunction htarget hsource function)
  | ret value =>
    cases value with
    | none =>
      simp only [Instruction.rename, Option.map_none, Site.operate, mapFault_pure, h.returnLabel]
    | some value =>
      simp only [Instruction.rename, Option.map_some, Site.operate, mapFault_bind,
        mapFault_ofExcept, mapFault_pure, h.load (hsource value List.mem_cons_self), h.returnLabel]

theorem lines (h : s.Renamed ρ t regs) {inst : Instruction} (hregs : ∀ r ∈ inst.regs, r ∈ regs) :
    t.lines (inst.rename ρ) = mapFault (·.rename ρ) (s.lines inst) := by
  by_cases hinst : ∃ name, inst = .label name
  · obtain ⟨name, rfl⟩ := hinst
    rfl
  · have hrenamed : ∀ name, inst.rename ρ ≠ .label name := by
      intro name heq
      cases inst <;> simp_all [Instruction.rename]
    rw [lines_eq hrenamed, lines_eq fun name heq => hinst ⟨name, heq⟩, mapFault_bind, h.operate]
    · simp only [mapFault_pure]
    · exact fun r hr => hregs r (List.mem_append_left _ hr)
    · exact fun r hr => hregs r (List.mem_append_right _ (Option.mem_toList.mpr hr))

end Site.Renamed

theorem Site.instLines_of_plain {s : Site} (hplain : s.settings.annotate = false) (p : Pool)
    (inst : Instruction) : s.instLines p inst = ((s.lines inst).run ⟨p, []⟩).1 := by
  have hlines : s.instLines p inst
      = ((s.lines inst).run ⟨p, []⟩).1.map (s.annotation inst ++ ·) := rfl
  rw [hlines, Site.annotation, hplain]
  cases ((s.lines inst).run ⟨p, []⟩).1 <;> rfl

theorem Site.Renamed.instLines {ρ : VReg → VReg} {s t : Site} {regs : Set VReg}
    (h : s.Renamed ρ t regs) (hplain : s.settings.annotate = false) (p : Pool) {inst : Instruction}
    (hregs : ∀ r ∈ inst.regs, r ∈ regs) :
    t.instLines p (inst.rename ρ) = (s.instLines p inst).mapError (·.rename ρ) := by
  have hplain' : t.settings.annotate = false := by rw [h.settings, hplain]
  rw [Site.instLines_of_plain hplain', Site.instLines_of_plain hplain, h.lines hregs,
    Scratch.run_mapFault]

/-! ## Fragments -/

section Fragments
variable {ρ : VReg → VReg} {frag : Fragment} {l : Layout}

theorem Layout.within_of_ofFragment (h : Layout.ofFragment frag = .ok l) :
    l.Within {r | r ∈ frag.regs} := by
  obtain ⟨hparams, hslots, -⟩ := Layout.ofFragment_ok h
  constructor
  · intro r hr
    rw [hparams] at hr
    exact List.mem_append_left _ hr
  · intro r hr
    rw [hslots, Fragment.slotRegs, List.mem_eraseDups] at hr
    obtain ⟨inst, hinst, htarget⟩ := List.mem_filterMap.mp (List.mem_of_mem_filter hr)
    apply List.mem_append_right
    exact List.mem_flatMap_of_mem hinst (List.mem_append_right _ (Option.mem_toList.mpr htarget))

theorem Layout.renamed_site (hρ : Set.InjOn ρ {r | r ∈ frag.regs})
    (h : Layout.ofFragment frag = .ok l) (settings : Settings) (globals : List String) :
    (l.site settings globals frag).Renamed ρ ((l.rename ρ).site settings globals (frag.rename ρ))
      {r | r ∈ frag.regs} where
  function := rfl
  settings := rfl
  globals := rfl
  params := paramIndices_rename hρ (within_of_ofFragment h)
  homes := fun _ hr => home?_rename hρ (within_of_ofFragment h) hr

/-- Lowering a fragment with its registers renamed apart gives the same lines, or the same fault
with the new name in it, and the same pool. -/
theorem lowerFragment_rename {settings : Settings} (globals : List String) (pool : Pool)
    (hρ : Set.InjOn ρ {r | r ∈ frag.regs}) (hplain : settings.annotate = false) :
    lowerFragment settings globals (frag.rename ρ) pool
      = ((lowerFragment settings globals frag pool).1.mapError (·.rename ρ),
        (lowerFragment settings globals frag pool).2) := by
  have hlayout := Layout.ofFragment_rename hρ fun r (hr : r ∈ frag.regs) => hr
  cases h : Layout.ofFragment frag with
  | error fault =>
    rw [h] at hlayout
    rw [lowerFragment_of_error settings globals pool h,
      lowerFragment_of_error settings globals pool hlayout]
    rfl
  | ok l =>
    rw [h] at hlayout
    have hsite := Layout.renamed_site hρ h settings globals
    have hbody : (frag.rename ρ).body.mapM
          (((l.rename ρ).site settings globals (frag.rename ρ)).instLines pool)
        = (frag.body.mapM ((l.site settings globals frag).instLines pool)).mapError
            (·.rename ρ) := by
      apply mapM_map_eq_mapError
      intro inst hinst
      apply hsite.instLines hplain
      intro r hr
      exact List.mem_append_right _ (List.mem_flatMap_of_mem hinst hr)
    rw [lowerFragment_of_layout settings globals pool h,
      lowerFragment_of_layout settings globals pool hlayout, hbody, mapError_map, mapError_map]
    rfl

/-- A fragment whose last instruction reads a register that nothing defines. -/
def undefinedRead : Fragment :=
  ⟨"undefined_read", [⟨3⟩], [.mov ⟨1⟩ (.imm 20), .mov ⟨2⟩ (.reg ⟨1⟩), .print ⟨5⟩]⟩

def countDown (r : VReg) : VReg := ⟨100 - r.id⟩

theorem lowerFragment_rename_undefinedRead :
    Set.InjOn countDown {r | r ∈ undefinedRead.regs} ∧ Settings.default.annotate = false ∧
      (lowerFragment .default [] (undefinedRead.rename countDown) .temporaries).1
        = .error (.undefinedRegister ⟨95⟩ "undefined_read") := by
  have hinj : Set.InjOn countDown {r | r ∈ undefinedRead.regs} := by
    rintro ⟨r⟩ - ⟨q⟩ - h
    have hid : 100 - r = 100 - q := congrArg VReg.id h
    rw [(UInt32.sub_right_inj 100).mp hid]
  refine ⟨hinj, rfl, ?_⟩
  rw [lowerFragment_rename [] .temporaries hinj rfl]
  rfl

end Fragments
end A64Lowering
