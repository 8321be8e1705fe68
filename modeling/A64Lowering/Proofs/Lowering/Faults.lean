import Mathlib
import A64Lowering.Proofs.Lowering.Sequence

/-! # When an instruction cannot be lowered

* `Pool.available_of_acquire`, `Pool.exists_acquire`: a free register can be taken, and is one less.
* `Scratch.Needs`: the registers that a step takes at most, and the fault it has as long as they are
  free.
* `Site.fault?`: the fault of an instruction by what it names, reads and defines. `faultOf?_lower`: it
  is the fault of lowering it, as long as `Instruction.need` registers are free. -/
namespace A64Lowering
set_option autoImplicit false

open A64 Ir

/-! ## The pool -/

namespace A64.Pool
variable {p after : Pool} {r : PoolReg}

theorem available_eq_card (p : Pool) :
    p.available = (Finset.univ.filter fun r => p.isFree r = true).card := by
  have hset : (Finset.univ.filter fun r => p.isFree r = true)
      = ((List.finRange 32).filter p.isFree).toFinset := by
    ext r
    simp
  rw [available, List.countP_eq_length_filter, hset,
    List.toFinset_card_of_nodup ((List.nodup_finRange 32).filter _)]

theorem available_of_acquire (h : p.acquire = .ok (r, after)) :
    p.available = after.available + 1 := by
  have hnot : r ∉ Finset.univ.filter fun q => after.isFree q = true := by
    intro hmem
    exact ((isFree_of_acquire h r).mp (Finset.mem_filter.mp hmem).2).1 rfl
  have hinsert : (Finset.univ.filter fun q => p.isFree q = true)
      = insert r (Finset.univ.filter fun q => after.isFree q = true) := by
    ext q
    have hfree := (release_of_acquire h).1
    by_cases hq : q = r <;> simp [isFree_of_acquire h, hq, hfree]
  rw [available_eq_card, available_eq_card, hinsert, Finset.card_insert_of_notMem hnot]

theorem exists_acquire (h : 0 < p.available) : ∃ r after, p.acquire = .ok (r, after) := by
  obtain ⟨r, hr, hfree⟩ := List.countP_pos_iff.mp h
  rw [acquire]
  split
  · next lowest found => exact ⟨_, _, rfl⟩
  · next found => exact absurd hfree (List.find?_eq_none.mp found r hr)

end A64.Pool

/-! ## Steps -/

def faultOf? {α : Type} : Except LoweringFault α → Option LoweringFault
  | .ok _ => none
  | .error fault => some fault

theorem faultOf?_eq_none {α : Type} {answer : Except LoweringFault α} :
    faultOf? answer = none ↔ ∃ a, answer = .ok a := by
  cases answer <;> simp [faultOf?]

theorem faultOf?_eq_some {α : Type} {answer : Except LoweringFault α} {fault : LoweringFault} :
    faultOf? answer = some fault ↔ answer = .error fault := by
  cases answer <;> simp [faultOf?]

theorem faultOf?_map {α β : Type} (f : α → β) (answer : Except LoweringFault α) :
    faultOf? (answer.map f) = faultOf? answer := by
  cases answer <;> rfl

namespace Scratch

/-- While `need` registers are free, the step has this fault, or none and succeeds. It takes no more
than them. -/
structure Needs {α : Type} (x : Scratch α) (need : ℕ) (fault : Option LoweringFault) : Prop where
  fault : ∀ w, need ≤ w.pool.available → faultOf? (x.run w).1 = fault
  takes : ∀ w, w.pool.available ≤ (x.run w).2.pool.available + need

section Needs
variable {α β : Type} {m n : ℕ} {fault fault' : Option LoweringFault}

theorem needs_pure (a : α) : Needs (pure a) 0 none := ⟨fun _ _ => rfl, fun _ => le_rfl⟩

theorem needs_ofExcept (answer : Except LoweringFault α) :
    Needs (ofExcept answer) 0 (faultOf? answer) :=
  ⟨fun _ _ => rfl, fun _ => le_rfl⟩

theorem needs_acquire : Needs acquire 1 none := by
  constructor
  · intro w hw
    obtain ⟨r, after, h⟩ := Pool.exists_acquire hw
    rw [acquire, ExceptT.run_mk, h]
    rfl
  · intro w
    rw [acquire, ExceptT.run_mk]
    split
    · next h => exact (Pool.available_of_acquire h).le
    · exact Nat.le_succ _

theorem Needs.bind {x : Scratch α} {f : α → Scratch β} (hx : Needs x m fault)
    (hf : ∀ a, Needs (f a) n fault') : Needs (x >>= f) (m + n) (fault.or fault') := by
  constructor
  · intro w hw
    have hfault := hx.fault w (by omega)
    have htakes := hx.takes w
    rw [run_bind]
    rcases hrun : x.run w with ⟨thrown | a, mid⟩
    · rw [hrun] at hfault
      rw [← hfault]
      rfl
    · rw [hrun] at hfault htakes
      rw [← hfault]
      exact (hf a).fault mid (by dsimp only at htakes; omega)
  · intro w
    have htakes := hx.takes w
    rw [run_bind]
    rcases hrun : x.run w with ⟨thrown | a, mid⟩
    · rw [hrun] at htakes
      dsimp only at htakes ⊢
      omega
    · rw [hrun] at htakes
      have hrest := (hf a).takes mid
      dsimp only at htakes ⊢
      omega

theorem Needs.congr {x : Scratch α} (hx : Needs x m fault) (h : m ≤ n) (heq : fault = fault') :
    Needs x n fault' :=
  ⟨fun w hw => (hx.fault w (h.trans hw)).trans heq, fun w => (hx.takes w).trans (by omega)⟩

end Needs
end Scratch

/-! ## Instructions -/

def Ir.Instruction.global? : Instruction → Option String
  | .loadGlobal _ name | .storeGlobal _ name => some name
  | _ => none

/-- How many scratch registers the code of an instruction works with at most. -/
def Ir.Instruction.need : Instruction → ℕ
  | .binary .. | .compare .. | .storeGlobal .. | .storeField .. => 2
  | .mov .. | .unary .. | .loadGlobal .. | .loadField .. | .condBranch .. => 1
  | .new .. | .delete _ | .print _ | .label _ | .branch _ | .call .. | .ret _ => 0

theorem Ir.Instruction.need_le (inst : Instruction) : inst.need ≤ 2 := by
  cases inst <;> simp [need]

/-- The fault of an instruction that passes more arguments than there are argument registers. -/
def Ir.Instruction.overfull? : Instruction → Option LoweringFault
  | .call _ _ args =>
    if args.length ≤ maxRegParams then none
    else some (.convention (.tooManyArguments args.length maxRegParams))
  | _ => none

namespace Site
variable (s : Site)

def homeless? (r : VReg) : Option LoweringFault := faultOf? (s.home r)

def unknown? (name : String) : Option LoweringFault := faultOf? (s.checkGlobal name)

/-- The fault of an instruction: a name that is no global variable, or too many arguments, or the
first of the registers it reads and defines that has no home. -/
def fault? (inst : Instruction) : Option LoweringFault :=
  (inst.global?.bind s.unknown?).or
    (inst.overfull?.or ((inst.sources ++ inst.targets).findSome? s.homeless?))

end Site

/-! ## The fault of lowering -/

theorem faultOf?_bind {α β : Type} {x : Except LoweringFault α} {f : α → Except LoweringFault β}
    {fault fault' : Option LoweringFault} (hx : faultOf? x = fault)
    (hf : ∀ a, faultOf? (f a) = fault') : faultOf? (x >>= f) = fault.or fault' := by
  cases x with
  | error thrown =>
    rw [← hx]
    rfl
  | ok a =>
    rw [← hx]
    exact hf a

/-- The first fault of many answers is the fault of them all. -/
theorem faultOf?_mapM {α β : Type} (f : α → Except LoweringFault β) (as : List α) :
    faultOf? (as.mapM f) = as.findSome? fun a => faultOf? (f a) := by
  induction as with
  | nil => rfl
  | cons a as ih =>
    rw [List.mapM_cons, List.findSome?_cons]
    rcases f a with fault | b
    · rfl
    · rcases hrest : as.mapM f with fault | bs
      · rw [hrest] at ih
        exact ih
      · rw [hrest] at ih
        exact ih

namespace Site
variable {s : Site} {α β : Type} {m n : ℕ} {regs regs' : List VReg}

open Scratch (Needs needs_pure needs_ofExcept needs_acquire)

/-- The step needs these registers to have homes, in this order, and no more to succeed. -/
abbrev Asks (s : Site) (x : Scratch α) (need : ℕ) (regs : List VReg) : Prop :=
  Needs x need (regs.findSome? s.homeless?)

theorem Asks.bind {x : Scratch α} {f : α → Scratch β} (hx : s.Asks x m regs)
    (hf : ∀ a, s.Asks (f a) n regs') : s.Asks (x >>= f) (m + n) (regs ++ regs') := by
  rw [Asks, List.findSome?_append]
  exact Needs.bind hx hf

theorem asks_pure (a : α) : s.Asks (pure a) 0 [] := needs_pure a

theorem asks_acquire : s.Asks Scratch.acquire 1 [] := needs_acquire

theorem findSome?_singleton (r : VReg) : [r].findSome? s.homeless? = faultOf? (s.home r) := by
  rw [List.findSome?_cons, homeless?]
  cases faultOf? (s.home r) <;> rfl

/-- Whatever is made of a home, its register has to have one. -/
theorem faultOf?_home (r : VReg) (f : Home → α) :
    faultOf? ((s.home r).map f) = [r].findSome? s.homeless? := by
  rw [faultOf?_map, findSome?_singleton]

theorem asks_home (r : VReg) (f : Home → α) :
    s.Asks (Scratch.ofExcept ((s.home r).map f)) 0 [r] := by
  rw [Asks, ← faultOf?_home r f]
  exact needs_ofExcept _

theorem asks_fetch (r : VReg) : s.Asks (s.fetch r) 1 [r] :=
  asks_acquire.bind fun _ => (asks_home r _).bind fun _ => asks_pure _

theorem asks_operand (operand : Operand) : s.Asks (s.operand operand) 1 operand.reg?.toList := by
  cases operand with
  | reg r => exact asks_fetch r
  | imm n => exact asks_acquire.bind fun _ => asks_pure _

theorem asks_applyBinary (op : BinaryOp) (lhs : Reg) (rhs : Operand) :
    s.Asks (s.applyBinary op lhs rhs) 1 rhs.reg?.toList := by
  rw [applyBinary]
  split
  · next i hi =>
    cases rhs with
    | reg r => cases hi
    | imm n => exact (asks_pure _).congr (Nat.zero_le 1) rfl
  · have h := (asks_operand (s := s) rhs).bind fun front =>
      asks_pure (front.2 ++ [binaryInst op lhs front.1])
    rwa [List.append_nil] at h

theorem faultOf?_loadArgs (index : ℕ) (args : List VReg) :
    faultOf? (s.loadArgs index args) = args.findSome? s.homeless? := by
  induction args generalizing index with
  | nil => rfl
  | cons arg args ih =>
    have hrest : ∀ first : List Inst,
        faultOf? (s.loadArgs (index + 1) args >>= fun rest => pure (first ++ rest))
          = args.findSome? s.homeless? := by
      intro first
      rw [← Option.or_none (o := args.findSome? s.homeless?)]
      exact faultOf?_bind (ih _) fun _ => rfl
    rw [loadArgs, ← List.singleton_append, List.findSome?_append]
    exact faultOf?_bind (faultOf?_home arg _) hrest

theorem faultOf?_callFunction (target : Option VReg) (function : String) (args : List VReg) :
    faultOf? (s.callFunction target function args) = s.fault? (.call target function args) := by
  have hfault : s.fault? (.call target function args)
      = (Instruction.call target function args).overfull?.or
        ((args.findSome? s.homeless?).or (target.toList.findSome? s.homeless?)) := by
    rw [← List.findSome?_append]
    rfl
  rw [hfault, callFunction, Instruction.overfull?]
  split
  · rw [Option.none_or]
    refine faultOf?_bind (faultOf?_loadArgs 0 args) fun arguments => ?_
    rw [← Option.or_none (o := target.toList.findSome? s.homeless?)]
    cases target with
    | none => rfl
    | some r => exact faultOf?_bind (faultOf?_home r _) fun _ => rfl
  · rfl

/-- With enough free registers, lowering fails as the instruction does. -/
theorem needs_operate (inst : Instruction) :
    Needs (s.operate inst) inst.need (s.fault? inst) := by
  cases inst with
  | mov target source =>
    exact ((asks_operand source).bind fun _ => (asks_home target _).bind fun _ =>
      asks_pure _).congr le_rfl rfl
  | binary op target lhs rhs =>
    exact ((asks_fetch lhs).bind fun _ => (asks_applyBinary op _ rhs).bind fun _ =>
      (asks_home target _).bind fun _ => asks_pure _).congr le_rfl rfl
  | unary op target source =>
    exact ((asks_fetch source).bind fun _ => (asks_home target _).bind fun _ =>
      asks_pure _).congr le_rfl rfl
  | compare cond target lhs rhs =>
    exact ((asks_fetch lhs).bind fun _ => (asks_operand rhs).bind fun _ =>
      (asks_home target _).bind fun _ => asks_pure _).congr le_rfl rfl
  | loadGlobal target name =>
    exact ((needs_ofExcept (s.checkGlobal name)).bind fun _ => asks_acquire.bind fun _ =>
      (asks_home target _).bind fun _ => asks_pure _).congr le_rfl rfl
  | storeGlobal source name =>
    exact ((needs_ofExcept (s.checkGlobal name)).bind fun _ => (asks_fetch source).bind fun _ =>
      asks_acquire.bind fun _ => asks_pure _).congr le_rfl rfl
  | loadField target base field index =>
    exact ((asks_fetch base).bind fun _ => (asks_home target _).bind fun _ =>
      asks_pure _).congr le_rfl rfl
  | storeField source base field index =>
    exact ((asks_fetch source).bind fun _ => (asks_fetch base).bind fun _ =>
      asks_pure _).congr le_rfl rfl
  | new register _ _ | delete register | print register =>
    exact ((asks_home register _).bind fun _ => asks_pure _).congr le_rfl rfl
  | label _ | branch _ => exact (needs_pure _).congr le_rfl rfl
  | condBranch value onTrue name =>
    exact ((asks_fetch value).bind fun _ => asks_pure _).congr le_rfl rfl
  | call target function args =>
    exact (needs_ofExcept _).congr le_rfl (faultOf?_callFunction target function args)
  | ret value =>
    cases value with
    | none => exact (needs_pure _).congr le_rfl rfl
    | some value => exact ((asks_home value _).bind fun _ => asks_pure _).congr le_rfl rfl

theorem needs_lines (inst : Instruction) : Needs (s.lines inst) inst.need (s.fault? inst) := by
  by_cases hinst : ∃ name, inst = .label name
  · obtain ⟨name, rfl⟩ := hinst
    exact (needs_pure _).congr le_rfl rfl
  · rw [lines_eq fun name h => hinst ⟨name, h⟩, ← Option.or_none (o := s.fault? inst)]
    exact (needs_operate inst).bind fun _ => needs_pure _

/-- With enough free registers, an instruction has its own fault and no other. -/
theorem faultOf?_lower {w : Workspace} {inst : Instruction} (hw : inst.need ≤ w.pool.available) :
    faultOf? ((s.lower inst).run w).1 = s.fault? inst := by
  have hlines : ((s.lower inst).run w).1
      = ((s.lines inst).run w).1.map (s.annotation inst ++ ·) := rfl
  rw [hlines, faultOf?_map]
  exact (needs_lines inst).fault w hw

theorem faultOf?_instLines {p : Pool} (hp : 2 ≤ p.available) (inst : Instruction) :
    faultOf? (s.instLines p inst) = s.fault? inst :=
  faultOf?_lower (w := ⟨p, []⟩) (inst.need_le.trans hp)

/-! ## What the fault says -/

variable {r : VReg} {name : String} {inst : Instruction} {fault : LoweringFault}

theorem homeless?_eq_none : s.homeless? r = none ↔ s.layout.home? r ≠ none := by
  rw [homeless?, home]
  cases s.layout.home? r <;> simp [faultOf?]

theorem homeless?_eq_some : s.homeless? r = some fault ↔
    s.layout.home? r = none ∧ .undefinedRegister r s.function = fault := by
  rw [homeless?, home]
  cases s.layout.home? r <;> simp [faultOf?]

theorem unknown?_eq_none : s.unknown? name = none ↔ name ∈ s.globals := by
  rw [unknown?, checkGlobal]
  split <;> simp_all [faultOf?]

theorem unknown?_eq_some : s.unknown? name = some fault ↔
    name ∉ s.globals ∧ .unknownGlobal name s.function = fault := by
  rw [unknown?, checkGlobal]
  split <;> simp_all [faultOf?]

end Site

section Overfull
variable {inst : Instruction} {fault : LoweringFault}

theorem overfull?_eq_none :
    inst.overfull? = none ↔ ∀ target function args, inst = .call target function args →
      args.length ≤ 8 := by
  cases inst with
  | call target function args =>
    rw [Instruction.overfull?, maxRegParams]
    split <;> simp_all
  | _ => simp [Instruction.overfull?]

theorem overfull?_eq_some :
    inst.overfull? = some fault ↔ ∃ target function args, inst = .call target function args ∧
      8 < args.length ∧ .convention (.tooManyArguments args.length 8) = fault := by
  cases inst with
  | call target function args =>
    rw [Instruction.overfull?, maxRegParams]
    split <;> simp_all
  | _ => simp [Instruction.overfull?]

end Overfull
end A64Lowering
