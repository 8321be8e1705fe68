import Mathlib
import A64Lowering.Proofs.Lowering.Faults
import A64Lowering.Proofs.Lowering.Homes
import A64Lowering.Proofs.Symbol.Fields

/-! # Which programs can be lowered

* `Instruction.Lowerable`, `Fragment.Lowerable`: what lowering wants of an instruction and of a
  fragment, told by what they name, read and define.
* `Instruction.Faults`, `Fragment.Faults`: the first thing that is wrong with them.
* `lowerProgram_fails_at_first_defect`: exactly the programs of lowerable fragments are lowered, and
  the fault of any other program is that of its first fragment that is not lowerable. -/
namespace A64Lowering
set_option autoImplicit false

open A64 Ir

/-! ## What lowering wants -/

def SymbolTable.BindsVariable (symbols : SymbolTable) (name : String) : Prop :=
  ∃ v, symbols.bound? globalScope name = some (.var v)

namespace Ir

/-- The register is a parameter, or some instruction of the body defines it. -/
def Fragment.Defines (frag : Fragment) (r : VReg) : Prop :=
  r ∈ frag.params ∨ ∃ inst ∈ frag.body, inst.target? = some r

def Fragment.locals (frag : Fragment) : Finset VReg :=
  (frag.body.filterMap (·.target?)).toFinset \ frag.params.toFinset

/-- The instruction reads what the fragment defines, names a global variable, and passes no more
arguments than there are argument registers. -/
structure Instruction.Lowerable (symbols : SymbolTable) (frag : Fragment) (inst : Instruction) :
    Prop where
  reads : ∀ r ∈ inst.sources, frag.Defines r
  global : ∀ name, inst.global? = some name → symbols.BindsVariable name
  args : ∀ target function args, inst = .call target function args → args.length ≤ 8

/-- The parameters fit in the argument registers, the other registers in a frame, and all
instructions are lowerable. -/
structure Fragment.Lowerable (symbols : SymbolTable) (frag : Fragment) : Prop where
  params : frag.params.length ≤ 8
  locals : frag.locals.card ≤ 2 ^ 27
  body : ∀ inst ∈ frag.body, inst.Lowerable symbols frag

/-- The fault of an instruction that is not lowerable. -/
inductive Instruction.Faults (symbols : SymbolTable) (frag : Fragment) (inst : Instruction) :
    LoweringFault → Prop where
  | unknownGlobal {name : String} (h : inst.global? = some name)
      (hname : ¬ symbols.BindsVariable name) :
      Faults symbols frag inst (.unknownGlobal name frag.label)
  | tooManyArguments {target : Option VReg} {function : String} {args : List VReg}
      (h : inst = .call target function args) (hargs : 8 < args.length) :
      Faults symbols frag inst (.convention (.tooManyArguments args.length 8))
  | undefinedRegister {before after : List VReg} {r : VReg}
      (hglobal : ∀ name, inst.global? = some name → symbols.BindsVariable name)
      (hargs : ∀ target function args, inst = .call target function args → args.length ≤ 8)
      (hsources : inst.sources = before ++ r :: after) (hbefore : ∀ q ∈ before, frag.Defines q)
      (hr : ¬ frag.Defines r) : Faults symbols frag inst (.undefinedRegister r frag.label)

/-- The fault of a fragment that is not lowerable: of its layout, parameters first, or else of its
first instruction that is not lowerable. -/
inductive Fragment.Faults (symbols : SymbolTable) (frag : Fragment) : LoweringFault → Prop where
  | tooManyParameters (h : 8 < frag.params.length) :
      Faults symbols frag (.convention (.tooManyParameters frag.params.length 8))
  | frameTooLarge (hparams : frag.params.length ≤ 8) (h : 2 ^ 27 < frag.locals.card) :
      Faults symbols frag
        (.convention (.frameTooLarge (.ofNat (min (8 * frag.locals.card) (2 ^ 32 - 1)))))
  | instruction {before after : List Instruction} {inst : Instruction} {fault : LoweringFault}
      (hparams : frag.params.length ≤ 8) (hlocals : frag.locals.card ≤ 2 ^ 27)
      (hbody : frag.body = before ++ inst :: after)
      (hbefore : ∀ first ∈ before, first.Lowerable symbols frag)
      (h : inst.Faults symbols frag fault) : Faults symbols frag fault

end Ir

/-! ## Global variables -/

theorem Entry.var?_eq_some {entry : Entry} {v : Variable} :
    entry.var? = some v ↔ entry = .var v := by
  cases entry <;> simp [var?]

theorem SymbolTable.mem_globalVariables {symbols : SymbolTable} {name : String} {v : Variable} :
    (name, v) ∈ symbols.globalVariables ↔ symbols.bound? globalScope name = some (.var v) := by
  rw [globalVariables, bound?]
  cases symbols.scope? globalScope with
  | none => simp
  | some s =>
    rw [Option.bind_some]
    dsimp only
    rw [Scope.mem_vars, Scope.var?, Option.bind_eq_some_iff]
    simp [Entry.var?_eq_some]

theorem SymbolTable.mem_globalNames {symbols : SymbolTable} {name : String} :
    name ∈ symbols.globalVariables.map (·.1) ↔ symbols.BindsVariable name := by
  simp [BindsVariable, ← mem_globalVariables]

/-! ## Registers with a slot -/

theorem nodup_eraseDups {α : Type} [DecidableEq α] : ∀ l : List α, l.eraseDups.Nodup
  | [] => by simp
  | a :: as => by
    have hlength : (as.filter fun b => !b == a).length ≤ as.length := List.length_filter_le _ _
    rw [List.eraseDups_cons, List.nodup_cons]
    exact ⟨by simp, nodup_eraseDups (as.filter fun b => !b == a)⟩
termination_by l => l.length
decreasing_by simp; omega

theorem mem_locals {frag : Fragment} {r : VReg} : r ∈ frag.locals ↔
    r ∉ frag.params ∧ ∃ inst ∈ frag.body, inst.target? = some r := by
  simp [Fragment.locals, and_comm]

theorem mem_slotRegs {frag : Fragment} {r : VReg} : r ∈ frag.slotRegs ↔ r ∈ frag.locals := by
  simp [Fragment.slotRegs, Fragment.locals]

theorem length_slotRegs (frag : Fragment) : frag.slotRegs.length = frag.locals.card := by
  have hset : frag.locals = frag.slotRegs.toFinset := by
    ext r
    rw [List.mem_toFinset, mem_slotRegs]
  have hnodup : frag.slotRegs.Nodup := nodup_eraseDups _
  rw [hset, List.toFinset_card_of_nodup hnodup]

/-! ## Layouts -/

/-- Rounding up ends at a multiple. -/
theorem alignTo_mod {size : UInt32} (h : size.toNat ≤ 2 ^ 30) :
    alignTo size stackAlign % stackAlign = 0 := by
  rw [← UInt32.toNat_inj, UInt32.toNat_mod, toNat_alignTo h]
  exact Nat.mul_mod_left _ 16

namespace A64.Frame

theorem exists_ofSlots {slots : ℕ} (h : slots ≤ 2 ^ 27) : ∃ f, ofSlots slots = .ok f := by
  have h8 : slotSize.toNat = 8 := rfl
  have hmax : maxFrameSize.toNat = 2 ^ 30 := rfl
  have hsize : (UInt32.ofNat (slots * 8)).toNat = slots * 8 :=
    UInt32.toNat_ofNat_of_lt' (show slots * 8 < 2 ^ 32 by omega)
  rw [ofSlots, h8, if_pos (by omega), ofSize, if_neg (by rw [UInt32.lt_iff_toNat_lt]; omega)]
  exact ⟨_, if_pos (alignTo_mod (by omega))⟩

/-- A size beyond 32 bits is reported as the largest of them. -/
theorem ofSlots_of_lt {slots : ℕ} (h : 2 ^ 27 < slots) :
    ofSlots slots = .error (.frameTooLarge (.ofNat (min (8 * slots) (2 ^ 32 - 1)))) := by
  have h8 : slotSize.toNat = 8 := rfl
  have hmax : maxFrameSize.toNat = 2 ^ 30 := rfl
  rw [ofSlots, h8]
  split
  · have hsize : (UInt32.ofNat (slots * 8)).toNat = slots * 8 :=
      UInt32.toNat_ofNat_of_lt' (show slots * 8 < 2 ^ 32 by omega)
    rw [ofSize, if_pos (by rw [UInt32.lt_iff_toNat_lt]; omega), Nat.mul_comm,
      Nat.min_eq_left (by omega)]
  · rw [Nat.min_eq_right (by omega)]
    rfl

end A64.Frame

namespace Layout
variable {frag : Fragment}

theorem exists_ofFragment (hparams : frag.params.length ≤ 8) (hlocals : frag.locals.card ≤ 2 ^ 27) :
    ∃ l, ofFragment frag = .ok l := by
  rw [← length_slotRegs] at hlocals
  obtain ⟨f, hf⟩ := Frame.exists_ofSlots hlocals
  rw [ofFragment, dif_pos hparams, hf]
  exact ⟨_, rfl⟩

theorem ofFragment_of_params (h : 8 < frag.params.length) :
    ofFragment frag = .error (.tooManyParameters frag.params.length 8) :=
  dif_neg (by omega)

theorem ofFragment_of_locals (hparams : frag.params.length ≤ 8)
    (h : 2 ^ 27 < frag.locals.card) :
    ofFragment frag
      = .error (.frameTooLarge (.ofNat (min (8 * frag.locals.card) (2 ^ 32 - 1)))) := by
  rw [← length_slotRegs] at h ⊢
  rw [ofFragment, dif_pos hparams, Frame.ofSlots_of_lt h]
  rfl

/-- The registers with a home are those that the fragment defines. -/
theorem home?_eq_none {l : Layout} (h : ofFragment frag = .ok l) {r : VReg} :
    l.home? r = none ↔ ¬ frag.Defines r := by
  obtain ⟨hparams, hslots, -⟩ := ofFragment_ok h
  have hparam : l.paramIndex? r = none ↔ r ∉ frag.params := by rw [paramIndex?_eq_none, hparams]
  have hslot : l.slot? r = none ↔ r ∉ frag.locals := by rw [slot?_eq_none, hslots, mem_slotRegs]
  rw [home?]
  cases hindex : l.paramIndex? r with
  | none =>
    rw [Option.map_eq_none_iff, hslot, mem_locals, Fragment.Defines]
    simp [hparam.mp hindex]
  | some i =>
    have hmem : r ∈ frag.params := by
      by_contra hnot
      rw [hparam.mpr hnot] at hindex
      cases hindex
    simp [Fragment.Defines, hmem]

end Layout

/-! ## Faults of instructions -/

section Instructions
variable {settings : Settings} {symbols : SymbolTable} {frag : Fragment} {l : Layout}
  {inst : Instruction} {fault : LoweringFault}

abbrev Layout.siteIn (l : Layout) (settings : Settings) (symbols : SymbolTable) (frag : Fragment) :
    Site :=
  l.site settings (symbols.globalVariables.map (·.1)) frag

theorem homeless?_eq_none (h : Layout.ofFragment frag = .ok l) {r : VReg} :
    (l.siteIn settings symbols frag).homeless? r = none ↔ frag.Defines r :=
  Site.homeless?_eq_none.trans ((Layout.home?_eq_none h).not.trans not_not)

theorem homeless?_eq_some (h : Layout.ofFragment frag = .ok l) {r : VReg} :
    (l.siteIn settings symbols frag).homeless? r = some fault ↔
      ¬ frag.Defines r ∧ .undefinedRegister r frag.label = fault :=
  Site.homeless?_eq_some.trans (and_congr_left' (Layout.home?_eq_none h))

theorem unknown?_eq_none {name : String} :
    (l.siteIn settings symbols frag).unknown? name = none ↔ symbols.BindsVariable name :=
  Site.unknown?_eq_none.trans SymbolTable.mem_globalNames

theorem unknown?_eq_some {name : String} :
    (l.siteIn settings symbols frag).unknown? name = some fault ↔
      ¬ symbols.BindsVariable name ∧ .unknownGlobal name frag.label = fault :=
  Site.unknown?_eq_some.trans (and_congr_left' SymbolTable.mem_globalNames.not)

/-- The target of an instruction of the body has a home. -/
theorem findSome?_homeless? (h : Layout.ofFragment frag = .ok l) (hinst : inst ∈ frag.body) :
    (inst.sources ++ inst.targets).findSome? (l.siteIn settings symbols frag).homeless?
      = inst.sources.findSome? (l.siteIn settings symbols frag).homeless? := by
  have htargets : inst.targets.findSome? (l.siteIn settings symbols frag).homeless? = none := by
    rw [List.findSome?_eq_none_iff]
    intro r hr
    exact (homeless?_eq_none h).mpr (.inr ⟨inst, hinst, Option.mem_toList.mp hr⟩)
  rw [List.findSome?_append, htargets, Option.or_none]

theorem fault?_eq_none (h : Layout.ofFragment frag = .ok l) (hinst : inst ∈ frag.body) :
    (l.siteIn settings symbols frag).fault? inst = none ↔ inst.Lowerable symbols frag := by
  rw [Site.fault?, findSome?_homeless? h hinst, Option.or_eq_none_iff, Option.or_eq_none_iff,
    Option.bind_eq_none_iff, overfull?_eq_none, List.findSome?_eq_none_iff]
  simp only [unknown?_eq_none, homeless?_eq_none h]
  exact ⟨fun ⟨hglobal, hargs, hreads⟩ => ⟨hreads, hglobal, hargs⟩,
    fun ⟨hreads, hglobal, hargs⟩ => ⟨hglobal, hargs, hreads⟩⟩

theorem fault?_eq_some (h : Layout.ofFragment frag = .ok l) (hinst : inst ∈ frag.body) :
    (l.siteIn settings symbols frag).fault? inst = some fault ↔ inst.Faults symbols frag fault := by
  rw [Site.fault?, findSome?_homeless? h hinst, Option.or_eq_some_iff, Option.or_eq_some_iff,
    Option.bind_eq_some_iff, Option.bind_eq_none_iff, overfull?_eq_none, overfull?_eq_some,
    List.findSome?_eq_some_iff]
  simp only [unknown?_eq_none, unknown?_eq_some, homeless?_eq_none h, homeless?_eq_some h]
  constructor
  · rintro (⟨name, hname, hunbound, rfl⟩ | ⟨hglobal, ⟨_, _, _, hcall, hlt, rfl⟩
      | ⟨hargs, before, r, after, hsources, ⟨hr, rfl⟩, hbefore⟩⟩)
    · exact .unknownGlobal hname hunbound
    · exact .tooManyArguments hcall hlt
    · exact .undefinedRegister hglobal hargs hsources hbefore hr
  · rintro (⟨hname, hunbound⟩ | ⟨hcall, hlt⟩ | ⟨hglobal, hargs, hsources, hbefore, hr⟩)
    · exact .inl ⟨_, hname, hunbound, rfl⟩
    · refine .inr ⟨?_, .inl ⟨_, _, _, hcall, hlt, rfl⟩⟩
      intro name hname
      rw [hcall] at hname
      cases hname
    · exact .inr ⟨hglobal, .inr ⟨hargs, _, _, _, hsources, ⟨hr, rfl⟩, hbefore⟩⟩

end Instructions

/-! ## Faults of fragments and programs -/

theorem two_le_available_temporaries : 2 ≤ Pool.temporaries.available := by
  decide

section Fragments
variable {settings : Settings} {symbols : SymbolTable} {frag : Fragment} {l : Layout}
  {fault : LoweringFault}

/-- What is wrong with a fragment that has a layout is what is wrong with its body. -/
theorem faultOf?_fragmentLines_of_layout (h : Layout.ofFragment frag = .ok l) :
    faultOf? (fragmentLines settings (symbols.globalVariables.map (·.1)) .temporaries frag)
      = frag.body.findSome? (l.siteIn settings symbols frag).fault? := by
  rw [fragmentLines, lowerFragment_of_layout _ _ _ h, faultOf?_map, faultOf?_map, faultOf?_mapM]
  refine congrArg (List.findSome? · frag.body) (funext fun inst => ?_)
  exact Site.faultOf?_instLines two_le_available_temporaries inst

theorem faultOf?_fragmentLines_of_error {f : ConventionFault}
    (h : Layout.ofFragment frag = .error f) :
    faultOf? (fragmentLines settings (symbols.globalVariables.map (·.1)) .temporaries frag)
      = some (.convention f) := by
  rw [fragmentLines, lowerFragment_of_error _ _ _ h]
  rfl

theorem faultOf?_fragmentLines_eq_none :
    faultOf? (fragmentLines settings (symbols.globalVariables.map (·.1)) .temporaries frag) = none
      ↔ frag.Lowerable symbols := by
  rcases Nat.lt_or_ge 8 frag.params.length with hparams | hparams
  · rw [faultOf?_fragmentLines_of_error (Layout.ofFragment_of_params hparams)]
    exact ⟨nofun, fun h => absurd h.params (by omega)⟩
  rcases Nat.lt_or_ge (2 ^ 27) frag.locals.card with hlocals | hlocals
  · rw [faultOf?_fragmentLines_of_error (Layout.ofFragment_of_locals hparams hlocals)]
    exact ⟨nofun, fun h => absurd h.locals (by omega)⟩
  obtain ⟨l, hl⟩ := Layout.exists_ofFragment hparams hlocals
  rw [faultOf?_fragmentLines_of_layout hl, List.findSome?_eq_none_iff]
  constructor
  · intro h
    exact ⟨hparams, hlocals, fun inst hinst => (fault?_eq_none hl hinst).mp (h inst hinst)⟩
  · intro h inst hinst
    exact (fault?_eq_none hl hinst).mpr (h.body inst hinst)

theorem faultOf?_fragmentLines_eq_some :
    faultOf? (fragmentLines settings (symbols.globalVariables.map (·.1)) .temporaries frag)
      = some fault ↔ frag.Faults symbols fault := by
  rcases Nat.lt_or_ge 8 frag.params.length with hparams | hparams
  · rw [faultOf?_fragmentLines_of_error (Layout.ofFragment_of_params hparams), Option.some_inj]
    constructor
    · rintro rfl
      exact .tooManyParameters hparams
    · rintro (_ | ⟨hle, -⟩ | ⟨hle, -⟩)
      · rfl
      all_goals omega
  rcases Nat.lt_or_ge (2 ^ 27) frag.locals.card with hlocals | hlocals
  · rw [faultOf?_fragmentLines_of_error (Layout.ofFragment_of_locals hparams hlocals),
      Option.some_inj]
    constructor
    · rintro rfl
      exact .frameTooLarge hparams hlocals
    · rintro (hlt | - | ⟨-, hle⟩)
      · omega
      · rfl
      · omega
  obtain ⟨l, hl⟩ := Layout.exists_ofFragment hparams hlocals
  rw [faultOf?_fragmentLines_of_layout hl, List.findSome?_eq_some_iff]
  constructor
  · rintro ⟨before, inst, after, hbody, hfault, hbefore⟩
    refine .instruction hparams hlocals hbody (fun first hfirst => ?_) ?_
    · exact (fault?_eq_none hl (by simp [hbody, hfirst])).mp (hbefore first hfirst)
    · exact (fault?_eq_some hl (by simp [hbody])).mp hfault
  · rintro (hlt | ⟨-, hlt⟩ | ⟨-, -, hbody, hbefore, hfault⟩)
    · omega
    · omega
    · next before after inst =>
      refine ⟨before, inst, after, hbody, ?_, fun first hfirst => ?_⟩
      · exact (fault?_eq_some hl (by simp [hbody])).mpr hfault
      · exact (fault?_eq_none hl (by simp [hbody, hfirst])).mpr (hbefore first hfirst)

end Fragments

/-! ## Programs -/

section Programs
variable {settings : Settings} {symbols : SymbolTable} {program : Program}
  {frag : Fragment} {fault : LoweringFault}

theorem faultOf?_lowerProgram :
    faultOf? (lowerProgram settings symbols program) = program.fragments.findSome? fun frag =>
      faultOf? (fragmentLines settings (symbols.globalVariables.map (·.1)) .temporaries frag) := by
  rw [lowerProgram, faultOf?_map, lowerFragments_eq, faultOf?_map, faultOf?_mapM]

theorem exists_lowerProgram :
    (∃ text, lowerProgram settings symbols program = .ok text) ↔
      ∀ frag ∈ program.fragments, frag.Lowerable symbols := by
  simp only [← faultOf?_eq_none, faultOf?_lowerProgram, List.findSome?_eq_none_iff,
    faultOf?_fragmentLines_eq_none]

theorem lowerProgram_eq_error :
    lowerProgram settings symbols program = .error fault ↔ ∃ before frag after,
      program.fragments = before ++ frag :: after ∧ (∀ first ∈ before, first.Lowerable symbols)
        ∧ frag.Faults symbols fault := by
  simp only [← faultOf?_eq_some, faultOf?_lowerProgram, List.findSome?_eq_some_iff,
    faultOf?_fragmentLines_eq_none, faultOf?_fragmentLines_eq_some]
  exact ⟨fun ⟨before, frag, after, h, hfault, hbefore⟩ => ⟨before, frag, after, h, hbefore, hfault⟩,
    fun ⟨before, frag, after, h, hbefore, hfault⟩ => ⟨before, frag, after, h, hfault, hbefore⟩⟩

/-- The faults that a fragment can have: none of the pool, none of a misaligned frame, and no
register that an instruction of its body defines. -/
theorem Ir.Fragment.Faults.reported (h : frag.Faults symbols fault) :
    (∀ f, fault ≠ .pool f) ∧ (∀ bytes, fault ≠ .convention (.misalignedFrame bytes))
      ∧ ∀ r function, fault = .undefinedRegister r function →
        function = frag.label ∧ ∀ inst ∈ frag.body, inst.target? ≠ some r := by
  cases h with
  | tooManyParameters | frameTooLarge => exact ⟨nofun, nofun, nofun⟩
  | instruction hparams hlocals hbody hbefore h =>
    cases h with
    | unknownGlobal | tooManyArguments => exact ⟨nofun, nofun, nofun⟩
    | undefinedRegister hglobal hargs hsources hdefined hr =>
      refine ⟨nofun, nofun, ?_⟩
      rintro r function ⟨⟩
      exact ⟨rfl, fun inst hinst htarget => hr (.inr ⟨inst, hinst, htarget⟩)⟩

/-- A program is lowered if all its fragments are lowerable. Any other program has the fault of its
first fragment that is not, which is never the pool's, a misaligned frame or a missing home of a
register that the fragment defines. -/
theorem lowerProgram_fails_at_first_defect (settings : Settings) (symbols : SymbolTable)
    (program : Program) :
    ((∃ text, lowerProgram settings symbols program = .ok text) ↔
      ∀ frag ∈ program.fragments, frag.Lowerable symbols)
    ∧ (∀ fault, lowerProgram settings symbols program = .error fault ↔
      ∃ before frag after, program.fragments = before ++ frag :: after
        ∧ (∀ first ∈ before, first.Lowerable symbols) ∧ frag.Faults symbols fault)
    ∧ ∀ fault, lowerProgram settings symbols program = .error fault →
      (∀ f, fault ≠ .pool f) ∧ (∀ bytes, fault ≠ .convention (.misalignedFrame bytes))
      ∧ ∀ r function, fault = .undefinedRegister r function →
        ∃ frag ∈ program.fragments, function = frag.label
          ∧ ∀ inst ∈ frag.body, inst.target? ≠ some r := by
  refine ⟨exists_lowerProgram, fun fault => lowerProgram_eq_error, ?_⟩
  intro fault h
  obtain ⟨before, frag, after, hfragments, -, hfault⟩ := lowerProgram_eq_error.mp h
  have hmem : frag ∈ program.fragments := by
    rw [hfragments]
    exact List.mem_append_right _ List.mem_cons_self
  obtain ⟨hpool, hframe, hregister⟩ := hfault.reported
  exact ⟨hpool, hframe, fun r function heq => ⟨frag, hmem, hregister r function heq⟩⟩

end Programs
end A64Lowering
