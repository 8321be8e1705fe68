import Mathlib
import A64Lowering.Lowering.Fragment
import A64Lowering.Proofs.Lowering.Borrowing
import A64Lowering.Proofs.Machine.Exec

/-! # What lowering emits

* `Scratch.Yields`: a step that succeeds, with its answer and the workspace after it.
* `Emits`: the shape of the machine instructions for each register instruction, out of the parts
  that move values. `emits_of_operate` says that lowering emits nothing else.
* `Lowers`: the lines of a body, instruction by instruction. -/
namespace A64Lowering
set_option autoImplicit false

open A64 Ir

/-! ## The pool -/

/-- The free registers lie in `x9` to `x15`. -/
def A64.Pool.Temporaries (p : Pool) : Prop := ∀ r, p.isFree r = true → 9 ≤ r.val ∧ r.val ≤ 15

/-- One of `x9` to `x15`. -/
abbrev A64.Reg.Temporary (r : Reg) : Prop := r ∈ Reg.among 9 15

namespace A64.Pool

theorem temporaries_free : temporaries.Temporaries := fun r h => (isFree_temporaries r).mp h

theorem Temporaries.of_acquire {p after : Pool} {r : PoolReg} (hp : p.Temporaries)
    (h : p.acquire = .ok (r, after)) : r.reg.Temporary ∧ after.Temporaries := by
  obtain ⟨hlo, hhi⟩ := hp r (release_of_acquire h).1
  have hr : (UInt8.ofNat r.val).toNat = r.val := UInt8.toNat_ofNat_of_lt' (by
    have := r.isLt
    show r.val < 256
    omega)
  exact ⟨⟨.ofNat r.val, by omega, by omega, rfl⟩, fun q hq => hp q ((isFree_of_acquire h q).mp hq).2⟩

end A64.Pool

theorem A64.PoolReg.reg_injective {r q : PoolReg} (h : r.reg = q.reg) : r = q := by
  have hval := congrArg UInt8.toNat (Reg.x.inj h)
  have hr := r.isLt
  have hq := q.isLt
  rw [UInt8.toNat_ofNat_of_lt' (show r.val < 256 by omega),
    UInt8.toNat_ofNat_of_lt' (show q.val < 256 by omega)] at hval
  exact Fin.ext hval

/-! ## Steps that succeed -/

namespace Scratch

/-- The step succeeds with `a`, and leaves `after`. -/
def Yields {α : Type} (x : Scratch α) (w : Workspace) (a : α) (after : Workspace) : Prop :=
  x.run w = (.ok a, after)

section Yields
variable {α β : Type} {w after : Workspace}

@[simp] theorem yields_pure {a b : α} : Yields (pure a) w b after ↔ a = b ∧ w = after := by
  have hrun : (pure a : Scratch α).run w = (.ok a, w) := rfl
  rw [Yields, hrun, Prod.mk.injEq, Except.ok.injEq]

@[simp] theorem yields_bind {x : Scratch α} {f : α → Scratch β} {b : β} :
    Yields (x >>= f) w b after ↔ ∃ a mid, Yields x w a mid ∧ Yields (f a) mid b after := by
  rw [Yields, run_bind]
  constructor
  · intro h
    rcases hx : x.run w with ⟨a | fault, mid⟩
    · rw [hx] at h
      exact absurd h nofun
    · rw [hx] at h
      exact ⟨_, mid, hx, h⟩
  · rintro ⟨a, mid, hx, hf⟩
    rw [show x.run w = _ from hx]
    exact hf

@[simp] theorem yields_ofExcept {e : Except LoweringFault α} {a : α} :
    Yields (ofExcept e) w a after ↔ e = .ok a ∧ w = after := by
  rw [Yields, run_ofExcept, Prod.mk.injEq]

theorem yields_acquire {a : Reg} (h : Yields acquire w a after) :
    ∃ r, w.pool.acquire = .ok (r, after.pool) ∧ a = r.reg := by
  rw [Yields, acquire, ExceptT.run_mk] at h
  split at h
  · next r pool found =>
    cases h
    exact ⟨r, found, rfl⟩
  · cases h

theorem temporary_of_acquire {a : Reg} (hw : w.pool.Temporaries) (h : Yields acquire w a after) :
    a.Temporary ∧ after.pool.Temporaries ∧
      ∀ b last, Yields acquire after b last → b ≠ a := by
  obtain ⟨r, hr, rfl⟩ := yields_acquire h
  obtain ⟨htemp, hafter⟩ := hw.of_acquire hr
  refine ⟨htemp, hafter, ?_⟩
  intro b last hb
  obtain ⟨q, hq, rfl⟩ := yields_acquire hb
  intro heq
  have hfree := (Pool.release_of_acquire hq).1
  exact ((Pool.isFree_of_acquire hr q).mp hfree).1 (PoolReg.reg_injective heq)

end Yields

end Scratch

/-! ## Instructions -/

/-- The code brings an operand into `reg`. -/
inductive Site.Fetches (s : Site) (reg : Reg) : Operand → List Inst → Prop where
  | reg {r : VReg} {code : List Inst} (h : s.load reg r = .ok code) : Fetches s reg (.reg r) code
  | imm (n : Int64) : Fetches s reg (.imm n) (loadImm reg n)

/-- The code for the result of a call, if the call has a target. -/
def Site.storeTarget (s : Site) : Option VReg → Except LoweringFault (List Inst)
  | some r => s.storeResult resultReg r
  | none => .ok []

theorem Site.loadArgs_ok {s : Site} {index : ℕ} {arg : VReg} {args : List VReg} {code : List Inst}
    (h : s.loadArgs index (arg :: args) = .ok code) :
    ∃ first rest, s.loadArg (.x (.ofNat index)) arg = .ok first ∧
      s.loadArgs (index + 1) args = .ok rest ∧ code = first ++ rest := by
  rw [loadArgs] at h
  rcases hfirst : s.loadArg (.x (.ofNat index)) arg with fault | first
  · rw [hfirst] at h
    exact absurd h nofun
  rcases hrest : s.loadArgs (index + 1) args with fault | rest
  · rw [hfirst, hrest] at h
    exact absurd h nofun
  rw [hfirst, hrest] at h
  cases h
  exact ⟨first, rest, rfl, rfl, rfl⟩

theorem Site.callFunction_ok {s : Site} {target : Option VReg} {function : String}
    {args : List VReg} {code : List Inst} (h : s.callFunction target function args = .ok code) :
    ∃ arguments result, args.length ≤ 8 ∧ s.loadArgs 0 args = .ok arguments ∧
      s.storeTarget target = .ok result ∧
      code = s.saveParams
        ++ (if 0 < homeAreaSize args.length then [.subImm .sp .sp (homeAreaSize args.length)] else [])
        ++ arguments ++ [.bl function]
        ++ (if 0 < homeAreaSize args.length then [.addImm .sp .sp (homeAreaSize args.length)] else [])
        ++ result ++ s.restoreParams := by
  rw [callFunction] at h
  split at h
  · next hlength =>
    rcases harguments : s.loadArgs 0 args with fault | arguments
    · rw [harguments] at h
      exact absurd h nofun
    rw [harguments] at h
    cases target with
    | none =>
      cases h
      exact ⟨arguments, [], hlength, rfl, rfl, rfl⟩
    | some r =>
      rcases hresult : s.storeResult resultReg r with fault | result
      · simp only [hresult] at h
        exact absurd h nofun
      · simp only [hresult] at h
        cases h
        exact ⟨arguments, result, hlength, rfl, hresult, rfl⟩
  · exact absurd h nofun

/-- The machine instructions for a register instruction. -/
inductive Site.Emits (s : Site) : Instruction → List Inst → Prop where
  | mov {target : VReg} {source : Operand} {a : Reg} {code result : List Inst} (ha : a.Temporary)
      (hcode : s.Fetches a source code) (hresult : s.store a target = .ok result) :
      Emits s (.mov target source) (code ++ result)
  | binaryImm {op : BinaryOp} {target lhs : VReg} {rhs : Operand} {a : Reg} {i : Inst}
      {code result : List Inst} (ha : a.Temporary) (hcode : s.load a lhs = .ok code)
      (hi : immediateInst? op a rhs = some i) (hresult : s.store a target = .ok result) :
      Emits s (.binary op target lhs rhs) (code ++ [i] ++ result)
  | binary {op : BinaryOp} {target lhs : VReg} {rhs : Operand} {a b : Reg}
      {code rcode result : List Inst} (ha : a.Temporary) (hb : b.Temporary) (hne : b ≠ a)
      (hcode : s.load a lhs = .ok code) (hrcode : s.Fetches b rhs rcode)
      (hresult : s.store a target = .ok result) :
      Emits s (.binary op target lhs rhs) (code ++ (rcode ++ [binaryInst op a b]) ++ result)
  | unary {op : UnaryOp} {target source : VReg} {a : Reg} {code result : List Inst}
      (ha : a.Temporary) (hcode : s.load a source = .ok code)
      (hresult : s.store a target = .ok result) :
      Emits s (.unary op target source) (code ++ [unaryInst op a] ++ result)
  | compare {cond : CompareOp} {target lhs : VReg} {rhs : Operand} {a b : Reg}
      {code rcode result : List Inst} (ha : a.Temporary) (hb : b.Temporary) (hne : b ≠ a)
      (hcode : s.load a lhs = .ok code) (hrcode : s.Fetches b rhs rcode)
      (hresult : s.store a target = .ok result) :
      Emits s (.compare cond target lhs rhs)
        (code ++ rcode ++ [.cmp a b, .cset a (condition cond)] ++ result)
  | loadGlobal {target : VReg} {name : String} {a : Reg} {result : List Inst} (ha : a.Temporary)
      (hresult : s.store a target = .ok result) :
      Emits s (.loadGlobal target name) (symbolAddress a name ++ [.ldr a a 0] ++ result)
  | storeGlobal {source : VReg} {name : String} {a b : Reg} {code : List Inst} (ha : a.Temporary)
      (hb : b.Temporary) (hne : b ≠ a) (hcode : s.load a source = .ok code) :
      Emits s (.storeGlobal source name) (code ++ symbolAddress b name ++ [.str a b 0])
  | loadField {target base : VReg} {field : String} {index : UInt64} {a : Reg}
      {code result : List Inst} (ha : a.Temporary) (hcode : s.load a base = .ok code)
      (hresult : s.store a target = .ok result) :
      Emits s (.loadField target base field index)
        (code ++ [.ldr a a (fieldOffset index)] ++ result)
  | storeField {source base : VReg} {field : String} {index : UInt64} {a b : Reg}
      {code bcode : List Inst} (ha : a.Temporary) (hb : b.Temporary) (hne : b ≠ a)
      (hcode : s.load a source = .ok code) (hbcode : s.load b base = .ok bcode) :
      Emits s (.storeField source base field index)
        (code ++ bcode ++ [.str a b (fieldOffset index)])
  | new {target : VReg} {typeName : String} {size : UInt64} {result : List Inst}
      (hresult : s.storeResult resultReg target = .ok result) :
      Emits s (.new target typeName size)
        (s.saveParams ++ loadImm resultReg (objectBytes size) ++ [.bl s.settings.runtime.malloc]
          ++ result ++ s.restoreParams)
  | delete {source : VReg} {code : List Inst} (hcode : s.load (.x 0) source = .ok code) :
      Emits s (.delete source)
        (s.saveParams ++ code ++ [.bl s.settings.runtime.free] ++ s.restoreParams)
  | print {source : VReg} {code : List Inst} (hcode : s.load (.x 1) source = .ok code) :
      Emits s (.print source)
        (s.saveParams ++ code ++ symbolAddress (.x 0) intFormatLabel
          ++ [.bl s.settings.runtime.printf] ++ s.restoreParams)
  | call {target : Option VReg} {function : String} {args : List VReg} {code : List Inst}
      (hcode : s.callFunction target function args = .ok code) :
      Emits s (.call target function args) code
  | branch (name : String) : Emits s (.branch name) [.b name]
  | condBranch {value : VReg} {onTrue : Bool} {name : String} {a : Reg} {code : List Inst}
      (ha : a.Temporary) (hcode : s.load a value = .ok code) :
      Emits s (.condBranch value onTrue name)
        (code ++ [if onTrue then .cbnz a name else .cbz a name])
  | ret : Emits s (.ret none) [.b s.returnLabel]
  | retValue {value : VReg} {code : List Inst} (hcode : s.load resultReg value = .ok code) :
      Emits s (.ret (some value)) (code ++ [.b s.returnLabel])

namespace Site
variable {s : Site} {w after : Workspace}

theorem yields_fetch {r : VReg} {a : Reg} {code : List Inst}
    (h : Scratch.Yields (s.fetch r) w (a, code) after) :
    Scratch.Yields Scratch.acquire w a after ∧ s.load a r = .ok code := by
  simp only [fetch, Scratch.yields_bind, Scratch.yields_ofExcept, Scratch.yields_pure,
    Prod.mk.injEq] at h
  obtain ⟨b, mid, hb, code', _, ⟨hcode, rfl⟩, ⟨rfl, rfl⟩, rfl⟩ := h
  exact ⟨hb, hcode⟩

theorem yields_operand {operand : Operand} {a : Reg} {code : List Inst}
    (h : Scratch.Yields (s.operand operand) w (a, code) after) :
    Scratch.Yields Scratch.acquire w a after ∧ s.Fetches a operand code := by
  cases operand with
  | reg r =>
    obtain ⟨ha, hcode⟩ := yields_fetch h
    exact ⟨ha, .reg hcode⟩
  | imm n =>
    simp only [Site.operand, Scratch.yields_bind, Scratch.yields_pure, Prod.mk.injEq] at h
    obtain ⟨b, mid, hb, ⟨rfl, rfl⟩, rfl⟩ := h
    exact ⟨hb, .imm n⟩

theorem emits_of_applyBinary {op : BinaryOp} {target lhs : VReg} {rhs : Operand} {a : Reg}
    {mid : Workspace} {code operation result : List Inst} (hw : w.pool.Temporaries)
    (ha : Scratch.Yields Scratch.acquire w a mid) (hcode : s.load a lhs = .ok code)
    (h : Scratch.Yields (s.applyBinary op a rhs) mid operation after)
    (hresult : s.store a target = .ok result) :
    s.Emits (.binary op target lhs rhs) (code ++ operation ++ result) := by
  obtain ⟨htemp, hmid, hne⟩ := Scratch.temporary_of_acquire hw ha
  cases himm : immediateInst? op a rhs with
  | some i =>
    rw [applyBinary, himm] at h
    obtain ⟨rfl, rfl⟩ := Scratch.yields_pure.mp h
    exact .binaryImm htemp hcode himm hresult
  | none =>
    rw [applyBinary, himm] at h
    simp only [Scratch.yields_bind, Scratch.yields_pure, Prod.exists] at h
    obtain ⟨b, rcode, last, hrhs, rfl, rfl⟩ := h
    obtain ⟨hacq, hrcode⟩ := yields_operand hrhs
    exact .binary htemp (Scratch.temporary_of_acquire hmid hacq).1 (hne b last hacq) hcode hrcode
      hresult

/-- Lowering emits nothing but these shapes. -/
theorem emits_of_operate (hw : w.pool.Temporaries) {inst : Instruction} {code : List Inst}
    (hinst : ∀ name, inst ≠ .label name) (h : Scratch.Yields (s.operate inst) w code after) :
    s.Emits inst code := by
  cases inst with
  | mov target source =>
    simp only [operate, Scratch.yields_bind, Scratch.yields_ofExcept, Scratch.yields_pure,
      Prod.exists] at h
    obtain ⟨a, front, mid, hfront, result, _, ⟨hresult, rfl⟩, rfl, rfl⟩ := h
    obtain ⟨ha, hcode⟩ := yields_operand hfront
    exact .mov (Scratch.temporary_of_acquire hw ha).1 hcode hresult
  | binary op target lhs rhs =>
    simp only [operate, Scratch.yields_bind, Scratch.yields_ofExcept, Scratch.yields_pure,
      Prod.exists] at h
    obtain ⟨a, front, mid, hfront, operation, last, hoperation, result, _, ⟨hresult, rfl⟩, rfl,
      rfl⟩ := h
    obtain ⟨ha, hcode⟩ := yields_fetch hfront
    exact emits_of_applyBinary hw ha hcode hoperation hresult
  | unary op target source =>
    simp only [operate, Scratch.yields_bind, Scratch.yields_ofExcept, Scratch.yields_pure,
      Prod.exists] at h
    obtain ⟨a, front, mid, hfront, result, _, ⟨hresult, rfl⟩, rfl, rfl⟩ := h
    obtain ⟨ha, hcode⟩ := yields_fetch hfront
    exact .unary (Scratch.temporary_of_acquire hw ha).1 hcode hresult
  | compare cond target lhs rhs =>
    simp only [operate, Scratch.yields_bind, Scratch.yields_ofExcept, Scratch.yields_pure,
      Prod.exists] at h
    obtain ⟨a, front, mid, hfront, b, back, last, hback, result, _, ⟨hresult, rfl⟩, rfl, rfl⟩ := h
    obtain ⟨ha, hcode⟩ := yields_fetch hfront
    obtain ⟨hb, hrcode⟩ := yields_operand hback
    obtain ⟨htemp, hmid, hne⟩ := Scratch.temporary_of_acquire hw ha
    exact .compare htemp (Scratch.temporary_of_acquire hmid hb).1 (hne b last hb) hcode hrcode
      hresult
  | loadGlobal target name =>
    simp only [operate, Scratch.yields_bind, Scratch.yields_ofExcept, Scratch.yields_pure] at h
    obtain ⟨_, _, ⟨-, rfl⟩, a, mid, ha, result, _, ⟨hresult, rfl⟩, rfl, rfl⟩ := h
    exact .loadGlobal (Scratch.temporary_of_acquire hw ha).1 hresult
  | storeGlobal source name =>
    simp only [operate, Scratch.yields_bind, Scratch.yields_ofExcept, Scratch.yields_pure,
      Prod.exists] at h
    obtain ⟨_, _, ⟨-, rfl⟩, a, front, mid, hfront, b, last, hb, rfl, rfl⟩ := h
    obtain ⟨ha, hcode⟩ := yields_fetch hfront
    obtain ⟨htemp, hmid, hne⟩ := Scratch.temporary_of_acquire hw ha
    exact .storeGlobal htemp (Scratch.temporary_of_acquire hmid hb).1 (hne b last hb) hcode
  | loadField target base field index =>
    simp only [operate, Scratch.yields_bind, Scratch.yields_ofExcept, Scratch.yields_pure,
      Prod.exists] at h
    obtain ⟨a, front, mid, hfront, result, _, ⟨hresult, rfl⟩, rfl, rfl⟩ := h
    obtain ⟨ha, hcode⟩ := yields_fetch hfront
    exact .loadField (Scratch.temporary_of_acquire hw ha).1 hcode hresult
  | storeField source base field index =>
    simp only [operate, Scratch.yields_bind, Scratch.yields_pure, Prod.exists] at h
    obtain ⟨a, front, mid, hfront, b, back, last, hback, rfl, rfl⟩ := h
    obtain ⟨ha, hcode⟩ := yields_fetch hfront
    obtain ⟨hb, hbcode⟩ := yields_fetch hback
    obtain ⟨htemp, hmid, hne⟩ := Scratch.temporary_of_acquire hw ha
    exact .storeField htemp (Scratch.temporary_of_acquire hmid hb).1 (hne b last hb) hcode hbcode
  | new target typeName size =>
    simp only [operate, Scratch.yields_bind, Scratch.yields_ofExcept, Scratch.yields_pure] at h
    obtain ⟨result, _, ⟨hresult, rfl⟩, rfl, rfl⟩ := h
    exact .new hresult
  | delete source =>
    simp only [operate, Scratch.yields_bind, Scratch.yields_ofExcept, Scratch.yields_pure] at h
    obtain ⟨front, _, ⟨hcode, rfl⟩, rfl, rfl⟩ := h
    exact .delete hcode
  | print source =>
    simp only [operate, Scratch.yields_bind, Scratch.yields_ofExcept, Scratch.yields_pure] at h
    obtain ⟨front, _, ⟨hcode, rfl⟩, rfl, rfl⟩ := h
    exact .print hcode
  | label name => exact absurd rfl (hinst name)
  | branch name =>
    obtain ⟨rfl, rfl⟩ := Scratch.yields_pure.mp h
    exact .branch name
  | condBranch value onTrue name =>
    simp only [operate, Scratch.yields_bind, Scratch.yields_pure, Prod.exists] at h
    obtain ⟨a, front, mid, hfront, rfl, rfl⟩ := h
    obtain ⟨ha, hcode⟩ := yields_fetch hfront
    exact .condBranch (Scratch.temporary_of_acquire hw ha).1 hcode
  | call target function args =>
    obtain ⟨hcode, -⟩ := Scratch.yields_ofExcept.mp h
    exact .call hcode
  | ret value =>
    cases value with
    | none =>
      obtain ⟨rfl, rfl⟩ := Scratch.yields_pure.mp h
      exact .ret
    | some value =>
      simp only [operate, Scratch.yields_bind, Scratch.yields_ofExcept, Scratch.yields_pure] at h
      obtain ⟨front, _, ⟨hcode, rfl⟩, rfl, rfl⟩ := h
      exact .retValue hcode

/-! ## Lines -/

/-- The lines for an instruction, without annotation. -/
inductive Prints (s : Site) : Instruction → List Line → Prop where
  | label (name : String) : Prints s (.label name) [.label name]
  | code {inst : Instruction} {code : List Inst} (h : s.Emits inst code) :
      Prints s inst (code.map .inst)

/-- The lines of a body. -/
inductive Lowers (s : Site) : List Instruction → List Line → Prop where
  | nil : Lowers s [] []
  | cons {inst : Instruction} {body : List Instruction} {lines rest : List Line}
      (hinst : s.Prints inst lines) (hbody : Lowers s body rest) :
      Lowers s (inst :: body) (s.annotation inst ++ lines ++ rest)

theorem prints_of_lines (hw : w.pool.Temporaries) {inst : Instruction} {lines : List Line}
    (h : Scratch.Yields (s.lines inst) w lines after) : s.Prints inst lines := by
  by_cases hinst : ∃ name, inst = .label name
  · obtain ⟨name, rfl⟩ := hinst
    obtain ⟨rfl, -⟩ := Scratch.yields_pure.mp h
    exact .label name
  · have hne : ∀ name, inst ≠ .label name := fun name h => hinst ⟨name, h⟩
    rw [lines_eq hne] at h
    simp only [Scratch.yields_bind, Scratch.yields_pure] at h
    obtain ⟨code, mid, hcode, rfl, rfl⟩ := h
    exact .code (emits_of_operate hw hne hcode)

/-- The lines of an instruction are its annotation and its code, and every register comes back. -/
theorem prints_of_lower (hw : w.pool.Temporaries) {inst : Instruction} {lines : List Line}
    (h : Scratch.Yields (s.lower inst) w lines after) :
    (∃ code, s.Prints inst code ∧ lines = s.annotation inst ++ code) ∧ after = w.release := by
  rw [Scratch.Yields, lower, ExceptT.run_mk] at h
  have hrestores := (borrows_lines (s := s) inst).release_run w
  rcases hrun : (s.lines inst).run w with ⟨fault | code, mid⟩
  · rw [hrun] at h
    exact absurd h nofun
  · rw [hrun] at h hrestores
    cases h
    exact ⟨⟨code, prints_of_lines hw hrun, rfl⟩, hrestores⟩

/-- The lines of a body are those of its instructions, and the pool is as before. -/
theorem lowers_of_lowerBody {p : Pool} (hp : p.Temporaries) {body : List Instruction}
    {lines : List Line} (h : Scratch.Yields (s.lowerBody body) ⟨p, []⟩ lines after) :
    s.Lowers body lines ∧ after = ⟨p, []⟩ := by
  induction body generalizing lines after with
  | nil =>
    obtain ⟨rfl, rfl⟩ := Scratch.yields_pure.mp h
    exact ⟨.nil, rfl⟩
  | cons inst body ih =>
    simp only [lowerBody, Scratch.yields_bind, Scratch.yields_pure] at h
    obtain ⟨first, mid, hfirst, rest, last, hrest, rfl, rfl⟩ := h
    obtain ⟨⟨code, hcode, rfl⟩, rfl⟩ := prints_of_lower hp hfirst
    obtain ⟨hbody, hlast⟩ := ih hrest
    exact ⟨.cons hcode hbody, hlast⟩

end Site

/-- The site at which a fragment is lowered. -/
def Layout.site (l : Layout) (settings : Settings) (globals : List String) (frag : Fragment) :
    Site :=
  ⟨frag.label, l, settings, globals⟩

theorem lowerFragment_ok {settings : Settings} {globals : List String} {frag : Fragment}
    {p after : Pool} {code : List Line} (hp : p.Temporaries)
    (h : lowerFragment settings globals frag p = (.ok code, after)) :
    ∃ layout lines, Layout.ofFragment frag = .ok layout ∧
      (layout.site settings globals frag).Lowers frag.body lines ∧
      code = heading frag.label layout.frame ++ lines
        ++ ending (layout.site settings globals frag) layout.frame ∧ after = p := by
  rw [lowerFragment] at h
  split at h
  · exact absurd h nofun
  · next layout hlayout =>
    dsimp only at h
    rcases hrun : ((layout.site settings globals frag).lowerBody frag.body).run ⟨p, []⟩
      with ⟨fault | lines, w⟩
    · rw [Layout.site] at hrun
      simp only [hrun, Except.map, Prod.mk.injEq] at h
      exact absurd h.1 nofun
    · obtain ⟨hlowers, rfl⟩ := Site.lowers_of_lowerBody hp hrun
      rw [Layout.site] at hrun
      simp only [hrun, Except.map, Prod.mk.injEq, Except.ok.injEq] at h
      exact ⟨layout, lines, hlayout, hlowers, h.1.symm, h.2.symm⟩

end A64Lowering
