import Mathlib
import A64Lowering.Proofs.Lowering.Encodable
import A64Lowering.Proofs.Lowering.Labels

/-! # What lowered code does to the stack

* `Spot`: what is known at a line of a function: how far the stack pointer is below its place on
  entry, whether the frame pointer is the function's own, and what the slot scratch register holds.
* `Moves`: the forms of instructions that lowering emits, with the spots before and after each.
* `Walks`: lines that move from spot to spot, where labels, branches and calls are only at the spots
  that belong to them. `walks_of_lowers`, `walks_function`: lowered functions walk. -/
namespace A64Lowering
set_option autoImplicit false

open A64 Ir

/-! ## Spots -/

/-- Whose frame pointer `x29` is, and whether it is in the frame record. -/
inductive Phase where
  | outside
  | saved
  | inside
  deriving DecidableEq

/-- What the slot scratch register holds: a number, or the address at a distance from the frame
pointer. -/
inductive Known where
  | nothing
  | number (n : ℤ)
  | slot (x : ℤ)
  deriving DecidableEq

structure Spot where
  /-- Bytes from the stack pointer up to its place on entry. -/
  depth : ℤ
  phase : Phase
  scratch : Known
  deriving DecidableEq

/-- The label of a function, and its return. -/
def Spot.entry : Spot := ⟨0, .outside, .nothing⟩

/-- In the frame, with this much stack in use. -/
def Spot.at (depth : ℤ) : Spot := ⟨depth, .inside, .nothing⟩

namespace Layout

/-- Between two instructions of the body. -/
def resting (l : Layout) : Spot := .at (16 + l.frame.localsSize.toNat)

/-- At a call for which room for `n` arguments is reserved. -/
def calling (l : Layout) (n : ℕ) : Spot :=
  .at (16 + l.frame.localsSize.toNat + (homeAreaSize n).toNat)

theorem calling_zero (l : Layout) : l.calling 0 = l.resting := by
  have hzero : (homeAreaSize 0).toNat = 0 := by decide
  rw [calling, resting, hzero, Nat.cast_zero, add_zero]

end Layout

/-! ## Moves -/

/-- An instruction that only works on `x0` to `x15`. -/
def A64.Inst.Works : Inst → Prop
  | .add rd _ _ | .sub rd _ _ | .mul rd _ _ | .sdiv rd _ _ | .neg rd _ | .addImm rd _ _
  | .subImm rd _ _ | .and rd _ _ | .orr rd _ _ | .eorImm rd _ _ | .cset rd _ | .mov rd _
  | .movImm rd _ | .ldrLiteral rd _ | .adrp rd _ | .addLo12 rd _ _ => rd ∈ Reg.among 0 15
  | .cmp _ _ => True
  | _ => False

/-- The forms of instructions, with what is known before and after. -/
inductive Moves (l : Layout) : Spot → Inst → Spot → Prop where
  | work {p : Spot} {i : Inst} (h : i.Works) : Moves l p i p
  | loadData {p : Spot} {rt rn : Reg} {off : Int32} (ht : rt ∈ Reg.among 0 15)
      (hn : rn ∈ Reg.among 0 15) : Moves l p (.ldr rt rn off) p
  | storeData {p : Spot} {rt rn : Reg} {off : Int32} (hn : rn ∈ Reg.among 0 15) :
      Moves l p (.str rt rn off) p
  | loadNear {d : ℤ} {r : VReg} {rt : Reg} {off : Int32} (ht : rt ∈ Reg.among 0 15)
      (hr : l.home? r = some (.slot off)) : Moves l (.at d) (.ldr rt .fp off) (.at d)
  | storeNear {d : ℤ} {r : VReg} {rt : Reg} {off : Int32} (hr : l.home? r = some (.slot off)) :
      Moves l (.at d) (.str rt .fp off) (.at d)
  | loadSaved {d : ℤ} {r : VReg} {rt : Reg} {i : Fin 8} (ht : rt ∈ Reg.among 0 15)
      (hr : l.home? r = some (.param i)) :
      Moves l (.at d) (.ldr rt .fp (paramSpillOffset (.ofNat i.val))) (.at d)
  | storeSaved {d : ℤ} {r : VReg} {rt : Reg} {i : Fin 8} (hr : l.home? r = some (.param i)) :
      Moves l (.at d) (.str rt .fp (paramSpillOffset (.ofNat i.val))) (.at d)
  | near {d : ℤ} (n : UInt32) :
      Moves l (.at d) (.subImm slotScratch .fp n) ⟨d, .inside, .slot (-n.toNat)⟩
  | distance {d : ℤ} {n : Int64} {i : Inst}
      (hi : i = .movImm slotScratch n ∨ i = .ldrLiteral slotScratch n) :
      Moves l (.at d) i ⟨d, .inside, .number n.toInt⟩
  | far {d n : ℤ} :
      Moves l ⟨d, .inside, .number n⟩ (.sub slotScratch .fp slotScratch)
        ⟨d, .inside, .slot (-n)⟩
  | loadFar {d : ℤ} {r : VReg} {rt : Reg} {off : Int32} (ht : rt ∈ Reg.among 0 15)
      (hr : l.home? r = some (.slot off)) :
      Moves l ⟨d, .inside, .slot off.toInt⟩ (.ldr rt slotScratch 0) (.at d)
  | storeFar {d : ℤ} {r : VReg} {rt : Reg} {off : Int32} (hr : l.home? r = some (.slot off)) :
      Moves l ⟨d, .inside, .slot off.toInt⟩ (.str rt slotScratch 0) (.at d)
  | down {d : ℤ} {f : Phase} (n : UInt32) :
      Moves l ⟨d, f, .nothing⟩ (.subImm .sp .sp n) ⟨d + n.toNat, f, .nothing⟩
  | up {d : ℤ} {f : Phase} (n : UInt32) :
      Moves l ⟨d, f, .nothing⟩ (.addImm .sp .sp n) ⟨d - n.toNat, f, .nothing⟩
  | saveRecord : Moves l ⟨16, .outside, .nothing⟩ (.stp .fp .lr .sp) ⟨16, .saved, .nothing⟩
  | openFrame : Moves l ⟨16, .saved, .nothing⟩ (.mov .fp .sp) (.at 16)
  | closeFrame : Moves l (.at 16) (.ldp .fp .lr .sp) ⟨16, .outside, .nothing⟩

/-- Instructions one after another. -/
inductive Path (l : Layout) : Spot → List Inst → Spot → Prop where
  | nil (p : Spot) : Path l p [] p
  | cons {p q r : Spot} {i : Inst} {code : List Inst} (h : Moves l p i q) (h' : Path l q code r) :
      Path l p (i :: code) r

section Path
variable {l : Layout} {p q r : Spot} {code code' : List Inst} {i : Inst}

theorem Path.single (h : Moves l p i q) : Path l p [i] q := .cons h (.nil q)

theorem Path.append (h : Path l p code q) (h' : Path l q code' r) :
    Path l p (code ++ code') r := by
  induction h with
  | nil => exact h'
  | cons hi _ ih => exact .cons hi (ih h')

theorem Path.snoc (h : Path l p code q) (h' : Moves l q i r) : Path l p (code ++ [i]) r :=
  h.append (.single h')

end Path

/-! ## Parts -/

section Parts
variable {s : Site} {d : ℤ} {dst src : Reg} {r : VReg} {code : List Inst}

theorem low_of_temporary (h : dst.Temporary) : dst ∈ Reg.among 0 15 :=
  Reg.among_subset (Nat.zero_le 9) le_rfl h

theorem argReg_low (i : Fin 8) : argReg i ∈ Reg.among 0 15 :=
  Reg.among_subset le_rfl (by omega) (Reg.argReg_mem i)

theorem path_loadImm {l : Layout} {p : Spot} (hdst : dst ∈ Reg.among 0 15) (n : Int64) :
    Path l p (loadImm dst n) p := by
  rw [loadImm]
  split <;> exact .single (.work hdst)

theorem path_moveReg {l : Layout} {p : Spot} (hdst : dst ∈ Reg.among 0 15) :
    Path l p (moveReg dst src) p := by
  rw [moveReg]
  split
  · exact .nil p
  · exact .single (.work hdst)

theorem path_symbolAddress {l : Layout} {p : Spot} (hdst : dst ∈ Reg.among 0 15)
    (symbol : String) : Path l p (symbolAddress dst symbol) p :=
  .cons (.work hdst) (.single (.work hdst))

/-- Near or far, the slot scratch register gets the address of the slot. -/
theorem path_slotAddress {l : Layout} (fits : l.Fits) {off : Int32}
    (hr : l.home? r = some (.slot off)) :
    Path l (.at d) (slotAddress off) ⟨d, .inside, .slot off.toInt⟩ := by
  obtain ⟨hlo, hhi⟩ := Layout.slot_bounds fits hr
  have hle := fits.locals_le
  have habs : (off.toInt.natAbs : ℤ) = -off.toInt := by omega
  have hmax : maxAddImm.toNat = 4095 := rfl
  rw [slotAddress]
  split
  · next hnear =>
    have hnat : ((UInt32.ofNat off.toInt.natAbs).toNat : ℤ) = -off.toInt := by
      rw [UInt32.toNat_ofNat_of_lt' (by rw [hmax] at hnear; show _ < 2 ^ 32; omega), habs]
    have hmove := Moves.near (l := l) (d := d) (.ofNat off.toInt.natAbs)
    rw [hnat, neg_neg] at hmove
    exact .single hmove
  · have hnat : (Int64.ofNat off.toInt.natAbs).toInt = -off.toInt := by
      rw [← habs]
      exact Int64.toInt_ofNat_of_lt (by omega)
    have hfar := Moves.far (l := l) (d := d) (n := -off.toInt)
    rw [neg_neg] at hfar
    refine Path.snoc ?_ hfar
    rw [loadImm]
    split
    · have hmove := Moves.distance (l := l) (d := d) (n := .ofNat off.toInt.natAbs) (.inl rfl)
      rw [hnat] at hmove
      exact .single hmove
    · have hmove := Moves.distance (l := l) (d := d) (n := .ofNat off.toInt.natAbs) (.inr rfl)
      rw [hnat] at hmove
      exact .single hmove

theorem path_loadSlot {l : Layout} (fits : l.Fits) {off : Int32}
    (hr : l.home? r = some (.slot off)) (hdst : dst ∈ Reg.among 0 15) :
    Path l (.at d) (loadSlot dst off) (.at d) := by
  rw [loadSlot]
  split
  · exact .single (.loadNear hdst hr)
  · exact (path_slotAddress fits hr).snoc (.loadFar hdst hr)

theorem path_storeSlot {l : Layout} (fits : l.Fits) {off : Int32}
    (hr : l.home? r = some (.slot off)) : Path l (.at d) (storeSlot src off) (.at d) := by
  rw [storeSlot]
  split
  · exact .single (.storeNear hr)
  · exact (path_slotAddress fits hr).snoc (.storeFar hr)

section Fits
variable (fits : s.layout.Fits)
include fits

theorem path_load (hdst : dst ∈ Reg.among 0 15) (hcode : s.load dst r = .ok code) :
    Path s.layout (.at d) code (.at d) := by
  obtain ⟨home, hr, rfl⟩ := Site.map_home_ok hcode
  cases home with
  | slot off => exact path_loadSlot fits hr hdst
  | param i => exact path_moveReg hdst

theorem path_store (hcode : s.store src r = .ok code) : Path s.layout (.at d) code (.at d) := by
  obtain ⟨home, hr, rfl⟩ := Site.map_home_ok hcode
  cases home with
  | slot off => exact path_storeSlot fits hr
  | param i => exact path_moveReg (argReg_low i)

theorem path_storeResult (hcode : s.storeResult src r = .ok code) :
    Path s.layout (.at d) code (.at d) := by
  obtain ⟨home, hr, rfl⟩ := Site.map_home_ok hcode
  cases home with
  | slot off => exact path_storeSlot fits hr
  | param i => exact .single (.storeSaved hr)

theorem path_storeTarget {target : Option VReg} (hcode : s.storeTarget target = .ok code) :
    Path s.layout (.at d) code (.at d) := by
  cases target with
  | none =>
    cases hcode
    exact .nil _
  | some r => exact path_storeResult fits hcode

theorem path_loadArg (hdst : dst ∈ Reg.among 0 15) (hcode : s.loadArg dst r = .ok code) :
    Path s.layout (.at d) code (.at d) := by
  obtain ⟨home, hr, rfl⟩ := Site.map_home_ok hcode
  cases home with
  | slot off => exact path_loadSlot fits hr hdst
  | param i => exact .single (.loadSaved hdst hr)

theorem path_fetches {operand : Operand} (hdst : dst ∈ Reg.among 0 15)
    (hcode : s.Fetches dst operand code) : Path s.layout (.at d) code (.at d) := by
  cases hcode with
  | reg hload => exact path_load fits hdst hload
  | imm n => exact path_loadImm hdst n

theorem path_loadArgs {args : List VReg} {index : ℕ} (hlength : index + args.length ≤ 8)
    (hcode : s.loadArgs index args = .ok code) : Path s.layout (.at d) code (.at d) := by
  induction args generalizing index code with
  | nil =>
    cases hcode
    exact .nil _
  | cons arg args ih =>
    rw [List.length_cons] at hlength
    obtain ⟨first, rest, hfirst, hrest, rfl⟩ := Site.loadArgs_ok hcode
    refine (path_loadArg fits ?_ hfirst).append (ih (by omega) hrest)
    rw [Reg.x_mem_among, UInt8.toNat_ofNat_of_lt' (by show index < 256; omega)]
    omega

end Fits

theorem path_params {is : List (Fin 8)} {f : Fin 8 → Inst} {l : Layout} {p : Spot}
    (h : ∀ i ∈ is, Moves l p (f i) p) : Path l p (is.map f) p := by
  induction is with
  | nil => exact .nil p
  | cons i is ih =>
    exact .cons (h i List.mem_cons_self) (ih fun j hj => h j (List.mem_cons_of_mem i hj))

theorem path_saveParams : Path s.layout (.at d) s.saveParams (.at d) := by
  refine path_params fun i hi => ?_
  obtain ⟨r, hr⟩ := Layout.mem_paramIndices.mp hi
  exact .storeSaved hr

theorem path_restoreParams : Path s.layout (.at d) s.restoreParams (.at d) := by
  refine path_params fun i hi => ?_
  obtain ⟨r, hr⟩ := Layout.mem_paramIndices.mp hi
  exact .loadSaved (argReg_low i) hr

theorem path_reserve {l : Layout} (size : UInt32) :
    Path l (.at d) (if 0 < size then [.subImm .sp .sp size] else []) (.at (d + size.toNat)) := by
  split
  · exact .single (.down size)
  · next hzero =>
    rw [toNat_eq_zero hzero, Nat.cast_zero, add_zero]
    exact .nil _

theorem path_giveBack {l : Layout} (size : UInt32) :
    Path l (.at (d + size.toNat)) (if 0 < size then [.addImm .sp .sp size] else []) (.at d) := by
  split
  · have hup := Moves.up (l := l) (d := d + size.toNat) (f := .inside) size
    rw [add_sub_cancel_right] at hup
    exact .single hup
  · next hzero =>
    rw [toNat_eq_zero hzero, Nat.cast_zero, add_zero]
    exact .nil _

end Parts

/-! ## Walks -/

/-- The label that an instruction may branch to. -/
def Ir.Instruction.target : Instruction → Option String
  | .branch name | .condBranch _ _ name => some name
  | _ => none

/-- The routine that an instruction calls, and for how many arguments it reserves room. -/
def Ir.Instruction.callee (runtime : RuntimeSymbols) : Instruction → Option (String × ℕ)
  | .new _ _ _ => some (runtime.malloc, 0)
  | .delete _ => some (runtime.free, 0)
  | .print _ => some (runtime.printf, 0)
  | .call _ function args => some (function, args.length)
  | _ => none

/-- Where a function may go on: its labels, and the routines that it calls. -/
structure Exits where
  label : String → Prop
  callee : String → ℕ → Prop

/-- The ways out of the instructions of a body. -/
def Site.exits (s : Site) (body : List Instruction) : Exits where
  label name := name = s.returnLabel ∨ ∃ inst ∈ body, inst.target = some name
  callee routine n := ∃ inst ∈ body, inst.callee s.settings.runtime = some (routine, n)

/-- Lines that move from spot to spot up to the return of their function. -/
inductive Walks (l : Layout) (x : Exits) : Spot → List Line → Prop where
  | move {p q : Spot} {i : Inst} {rest : List Line} (h : Moves l p i q) (hrest : Walks l x q rest) :
      Walks l x p (.inst i :: rest)
  | branch {name : String} {rest : List Line} (h : x.label name) :
      Walks l x l.resting (.inst (.b name) :: rest)
  | branchIf {name : String} {i : Inst} {rt : Reg} {rest : List Line}
      (hi : i = .cbz rt name ∨ i = .cbnz rt name) (h : x.label name)
      (hrest : Walks l x l.resting rest) : Walks l x l.resting (.inst i :: rest)
  | call {routine : String} {n : ℕ} {rest : List Line} (hn : n ≤ 8) (h : x.callee routine n)
      (hrest : Walks l x (l.calling n) rest) :
      Walks l x (l.calling n) (.inst (.bl routine) :: rest)
  | label {name : String} {rest : List Line} (hrest : Walks l x l.resting rest) :
      Walks l x l.resting (.label name :: rest)
  | directive {p : Spot} {text : String} {rest : List Line} (hrest : Walks l x p rest) :
      Walks l x p (.directive text :: rest)
  | comment {p : Spot} {text : String} {rest : List Line} (hrest : Walks l x p rest) :
      Walks l x p (.comment text :: rest)
  | ret {rest : List Line} : Walks l x .entry (.inst .ret :: rest)

theorem Walks.of_label {l : Layout} {x : Exits} {p : Spot} {name : String} {rest : List Line}
    (h : Walks l x p (.label name :: rest)) : p = l.resting ∧ Walks l x l.resting rest := by
  cases h with
  | label hrest => exact ⟨rfl, hrest⟩

theorem falls_of_moves {l : Layout} {p q : Spot} {i : Inst} (h : Moves l p i q) :
    i.falls = true := by
  cases h with
  | work hworks =>
    cases i with
    | b _ | cbz _ _ | cbnz _ _ | ret => exact absurd hworks id
    | _ => rfl
  | distance hi => rcases hi with rfl | rfl <;> rfl
  | _ => rfl

theorem Path.walks {l : Layout} {x : Exits} {p q : Spot} {code : List Inst} {rest : List Line}
    (h : Path l p code q) (hrest : Walks l x q rest) : Walks l x p (code.map .inst ++ rest) := by
  induction h with
  | nil => exact hrest
  | cons hi _ ih => exact .move hi (ih hrest)

section Walks
variable {s : Site} {x : Exits} {inst : Instruction} {code : List Inst} {rest : List Line}

theorem works_immediateInst {op : BinaryOp} {a : Reg} {rhs : Operand} {i : Inst}
    (ha : a ∈ Reg.among 0 15) (h : immediateInst? op a rhs = some i) : i.Works := by
  unfold immediateInst? at h
  cases rhs with
  | reg r => exact absurd h nofun
  | imm n =>
    dsimp only at h
    split at h
    · cases op with
      | add | sub =>
        cases h
        exact ha
      | _ => exact absurd h nofun
    · exact absurd h nofun

theorem walks_callFunction (fits : s.layout.Fits) {target : Option VReg} {function : String}
    {args : List VReg} (hcode : s.callFunction target function args = .ok code)
    (hcallee : x.callee function args.length) (hrest : Walks s.layout x s.layout.resting rest) :
    Walks s.layout x s.layout.resting (code.map .inst ++ rest) := by
  obtain ⟨arguments, result, hlength, harguments, hresult, rfl⟩ := s.callFunction_ok hcode
  have hbefore : Path s.layout s.layout.resting (s.saveParams
      ++ (if 0 < homeAreaSize args.length then [.subImm .sp .sp (homeAreaSize args.length)] else [])
      ++ arguments) (s.layout.calling args.length) :=
    (path_saveParams.append (path_reserve _)).append (path_loadArgs fits (by omega) harguments)
  have hafter : Path s.layout (s.layout.calling args.length)
      ((if 0 < homeAreaSize args.length then [.addImm .sp .sp (homeAreaSize args.length)] else [])
      ++ result ++ s.restoreParams) s.layout.resting :=
    ((path_giveBack _).append (path_storeTarget fits hresult)).append path_restoreParams
  have hwalks := hbefore.walks (.call hlength hcallee (hafter.walks hrest))
  simpa only [List.map_append, List.map_cons, List.map_nil, List.append_assoc, List.cons_append,
    List.nil_append] using hwalks

theorem walks_runtime {before after : List Inst} {routine : String}
    (hbefore : Path s.layout s.layout.resting before s.layout.resting)
    (hafter : Path s.layout s.layout.resting after s.layout.resting)
    (hcallee : x.callee routine 0) (hrest : Walks s.layout x s.layout.resting rest) :
    Walks s.layout x s.layout.resting
      ((before ++ [Inst.bl routine] ++ after).map .inst ++ rest) := by
  have hcall : Walks s.layout x (s.layout.calling 0)
      (.inst (.bl routine) :: (after.map .inst ++ rest)) := by
    refine .call (by omega) hcallee ?_
    rw [Layout.calling_zero]
    exact hafter.walks hrest
  rw [Layout.calling_zero] at hcall
  have hwalks := hbefore.walks hcall
  simpa only [List.map_append, List.map_cons, List.map_nil, List.append_assoc, List.cons_append,
    List.nil_append] using hwalks

/-- What an instruction emits walks from a resting place to the next. -/
theorem walks_of_emits (fits : s.layout.Fits) (h : s.Emits inst code)
    (hlabel : ∀ name, inst.target = some name → x.label name) (hreturn : x.label s.returnLabel)
    (hcallee : ∀ routine n, inst.callee s.settings.runtime = some (routine, n) →
      x.callee routine n)
    (hrest : Walks s.layout x s.layout.resting rest) :
    Walks s.layout x s.layout.resting (code.map .inst ++ rest) := by
  have hx : resultReg ∈ Reg.among 0 15 := argReg_low 0
  cases h with
  | mov ha hcode hresult =>
    have ha' := low_of_temporary ha
    exact ((path_fetches fits ha' hcode).append (path_store fits hresult)).walks hrest
  | @binaryImm op _ _ rhs a i _ _ ha hcode hi hresult =>
    have ha' := low_of_temporary ha
    refine (((path_load fits ha' hcode).snoc (.work ?_)).append (path_store fits hresult)).walks
      hrest
    exact works_immediateInst ha' hi
  | @binary op _ _ _ a b _ _ _ ha hb hne hcode hrcode hresult =>
    have ha' := low_of_temporary ha
    refine (((path_load fits ha' hcode).append ((path_fetches fits (low_of_temporary hb)
      hrcode).snoc (.work ?_))).append (path_store fits hresult)).walks hrest
    cases op <;> exact ha'
  | @unary op _ _ a _ _ ha hcode hresult =>
    have ha' := low_of_temporary ha
    refine (((path_load fits ha' hcode).snoc (.work ?_)).append (path_store fits hresult)).walks
      hrest
    cases op <;> exact ha'
  | @compare cond _ _ _ a b _ _ _ ha hb hne hcode hrcode hresult =>
    have ha' := low_of_temporary ha
    have hcmp : (Inst.cmp a b).Works := trivial
    have hcset : (Inst.cset a (condition cond)).Works := ha'
    exact ((((path_load fits ha' hcode).append (path_fetches fits (low_of_temporary hb)
      hrcode)).append (.cons (.work hcmp) (.single (.work hcset)))).append
      (path_store fits hresult)).walks hrest
  | loadGlobal ha hresult =>
    have ha' := low_of_temporary ha
    exact (((path_symbolAddress ha' _).snoc (.loadData ha' ha')).append
      (path_store fits hresult)).walks hrest
  | storeGlobal ha hb hne hcode =>
    have hb' := low_of_temporary hb
    exact (((path_load fits (low_of_temporary ha) hcode).append (path_symbolAddress hb' _)).snoc
      (.storeData hb')).walks hrest
  | loadField ha hcode hresult =>
    have ha' := low_of_temporary ha
    exact (((path_load fits ha' hcode).snoc (.loadData ha' ha')).append
      (path_store fits hresult)).walks hrest
  | storeField ha hb hne hcode hbcode =>
    have hb' := low_of_temporary hb
    exact (((path_load fits (low_of_temporary ha) hcode).append (path_load fits hb' hbcode)).snoc
      (.storeData hb')).walks hrest
  | new hresult =>
    rw [List.append_assoc _ _ s.restoreParams]
    exact walks_runtime (path_saveParams.append (path_loadImm hx _))
      ((path_storeResult fits hresult).append path_restoreParams) (hcallee _ _ rfl) hrest
  | delete hcode =>
    exact walks_runtime (path_saveParams.append (path_load fits hx hcode)) path_restoreParams
      (hcallee _ _ rfl) hrest
  | print hcode =>
    exact walks_runtime ((path_saveParams.append (path_load fits (argReg_low 1) hcode)).append
      (path_symbolAddress hx _)) path_restoreParams (hcallee _ _ rfl) hrest
  | call hcode => exact walks_callFunction fits hcode (hcallee _ _ rfl) hrest
  | branch name => exact .branch (hlabel name rfl)
  | @condBranch _ onTrue name a _ ha hcode =>
    have hload := path_load (d := 16 + s.layout.frame.localsSize.toNat) fits (low_of_temporary ha)
      hcode
    rw [List.map_append, List.append_assoc]
    have hbranch : (if onTrue then Inst.cbnz a name else .cbz a name) = .cbz a name ∨
        (if onTrue then Inst.cbnz a name else .cbz a name) = .cbnz a name := by
      cases onTrue with
      | true => exact .inr rfl
      | false => exact .inl rfl
    exact hload.walks (.branchIf hbranch (hlabel name rfl) hrest)
  | ret => exact .branch hreturn
  | retValue hcode =>
    have hload := path_load (d := 16 + s.layout.frame.localsSize.toNat) fits hx hcode
    rw [List.map_append, List.append_assoc]
    exact hload.walks (.branch hreturn)

theorem walks_comments {lines : List Line} (h : ∀ line ∈ lines, ∃ text, line = .comment text)
    {p : Spot} (hrest : Walks s.layout x p rest) : Walks s.layout x p (lines ++ rest) := by
  induction lines with
  | nil => exact hrest
  | cons line lines ih =>
    obtain ⟨⟨text, rfl⟩, hothers⟩ := List.forall_mem_cons.mp h
    exact .comment (ih hothers)

theorem walks_annotation (inst : Instruction) {p : Spot} (hrest : Walks s.layout x p rest) :
    Walks s.layout x p (s.annotation inst ++ rest) :=
  walks_comments (fun _ => Site.comment_of_annotationLine) hrest

/-- The lines of a body walk from a resting place to the next lines. -/
theorem walks_of_lowers (fits : s.layout.Fits) {body : List Instruction} {lines : List Line}
    (h : s.Lowers body lines)
    (hlabel : ∀ inst ∈ body, ∀ name, inst.target = some name → x.label name)
    (hreturn : x.label s.returnLabel)
    (hcallee : ∀ inst ∈ body, ∀ routine n,
      inst.callee s.settings.runtime = some (routine, n) → x.callee routine n)
    (hrest : Walks s.layout x s.layout.resting rest) :
    Walks s.layout x s.layout.resting (lines ++ rest) := by
  induction h with
  | nil => exact hrest
  | @cons inst body lines restLines hprints _ ih =>
    have hbody := ih (fun i hi => hlabel i (List.mem_cons_of_mem _ hi))
      (fun i hi => hcallee i (List.mem_cons_of_mem _ hi))
    rw [List.append_assoc, List.append_assoc]
    refine walks_annotation inst ?_
    cases hprints with
    | label name => exact .label hbody
    | code hemits =>
      exact walks_of_emits fits hemits (hlabel inst List.mem_cons_self) hreturn
        (hcallee inst List.mem_cons_self) hbody

end Walks

/-! ## Functions -/

section Function
variable {s : Site} {x : Exits}

theorem path_down {l : Layout} (f : Phase) (d : ℤ) (steps : List UInt32) :
    Path l ⟨d, f, .nothing⟩ (steps.map (.subImm .sp .sp))
      ⟨d + (steps.map UInt32.toNat).sum, f, .nothing⟩ := by
  induction steps generalizing d with
  | nil =>
    rw [List.map_nil, List.map_nil, List.sum_nil, Nat.cast_zero, add_zero]
    exact .nil _
  | cons step steps ih =>
    have hsteps := ih (d + step.toNat)
    rw [add_assoc, ← Nat.cast_add] at hsteps
    exact .cons (.down step) hsteps

theorem path_up {l : Layout} (f : Phase) (d : ℤ) (steps : List UInt32) :
    Path l ⟨d + (steps.map UInt32.toNat).sum, f, .nothing⟩ (steps.map (.addImm .sp .sp))
      ⟨d, f, .nothing⟩ := by
  induction steps generalizing d with
  | nil =>
    rw [List.map_nil, List.map_nil, List.sum_nil, Nat.cast_zero, add_zero]
    exact .nil _
  | cons step steps ih =>
    have hup := Moves.up (l := l) (d := d + ((step :: steps).map UInt32.toNat).sum) (f := f) step
    have hdepth : d + (((step :: steps).map UInt32.toNat).sum : ℕ) - step.toNat
        = d + ((steps.map UInt32.toNat).sum : ℕ) := by
      rw [List.map_cons, List.sum_cons, Nat.cast_add]
      omega
    rw [hdepth] at hup
    exact .cons hup (ih d)

theorem path_prologue (l : Layout) : Path l .entry l.frame.prologue l.resting := by
  have hsteps := path_down (l := l) .inside 16 l.frame.spSteps
  rw [Frame.sum_spSteps] at hsteps
  exact .cons (.down frameRecordSize) (.cons .saveRecord (.cons .openFrame hsteps))

theorem walks_ending (s : Site) (x : Exits) (rest : List Line) :
    Walks s.layout x s.layout.resting (ending s s.layout.frame ++ rest) := by
  have hsteps := path_up (l := s.layout) .inside 16 s.layout.frame.spSteps
  rw [Frame.sum_spSteps] at hsteps
  have hclose : Path s.layout s.layout.resting (s.layout.frame.spSteps.map (.addImm .sp .sp)
      ++ [.ldp .fp .lr .sp, .addImm .sp .sp frameRecordSize]) .entry :=
    hsteps.append (.cons .closeFrame (.single (.up frameRecordSize)))
  have hret : Walks s.layout x .entry (.inst .ret :: .directive
      (".size " ++ s.function ++ ", (. - " ++ s.function ++ ")") :: rest) := .ret
  have hlines : ending s s.layout.frame ++ rest = .label s.returnLabel
      :: ((s.layout.frame.spSteps.map (Inst.addImm .sp .sp)
        ++ [Inst.ldp .fp .lr .sp, .addImm .sp .sp frameRecordSize]).map .inst
        ++ .inst .ret :: .directive (".size " ++ s.function ++ ", (. - " ++ s.function ++ ")")
          :: rest) := by
    simp [ending, Frame.epilogue]
  rw [hlines]
  exact .label (hclose.walks hret)

/-- A lowered function walks from its label on. -/
theorem walks_function (fits : s.layout.Fits) {body : List Instruction} {lines : List Line}
    (h : s.Lowers body lines) (rest : List Line) :
    Walks s.layout (s.exits body) .entry (s.layout.frame.prologue.map .inst
      ++ (lines ++ (ending s s.layout.frame ++ rest))) := by
  refine (path_prologue s.layout).walks (walks_of_lowers fits h ?_ (.inl rfl) ?_
    (walks_ending s _ rest))
  · intro inst hinst name htarget
    exact .inr ⟨inst, hinst, htarget⟩
  · intro inst hinst routine n hcallee
    exact ⟨inst, hinst, hcallee⟩

theorem walks_label (fits : s.layout.Fits) {body rest : List Instruction} {lines : List Line}
    (h : s.Lowers rest lines) (hrest : rest ⊆ body) (tail : List Line) :
    Walks s.layout (s.exits body) s.layout.resting
      (lines ++ (ending s s.layout.frame ++ tail)) := by
  refine walks_of_lowers fits h ?_ (.inl rfl) ?_ (walks_ending s _ tail)
  · intro inst hinst name htarget
    exact .inr ⟨inst, hrest hinst, htarget⟩
  · intro inst hinst routine n hcallee
    exact ⟨inst, hrest hinst, hcallee⟩

end Function
end A64Lowering
