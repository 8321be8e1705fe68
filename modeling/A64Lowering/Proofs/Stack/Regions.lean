import Mathlib
import A64Lowering.Proofs.Stack.Chain

/-! # The parts of the stack that activations use

* `Activation.Owns`: the slots, the frame record and the saved parameters of an activation.
* `Activation.Reserves`: a caller with room for what its callee saves, where it lowered `sp` for a
  call.
* `Config.Separated`: the running activation writes and reads cells of its own, every callee saves
  its parameters in the room that its caller reserved, and live activations share no byte.
* `reaches_quiet`: runs of straight code that works on the stack. -/
namespace A64Lowering
set_option autoImplicit false

open A64 Ir

/-! ## Cells of an activation -/

namespace Activation
variable {a : Activation} {top cell b : Word}

/-- The cell is one of the activation's. -/
def Owns (a : Activation) (top cell : Word) : Prop :=
  a.Slot top cell ∨ a.Record top cell ∨ a.Spill top cell

theorem Fits.slot (h : a.Fits) {r : VReg} {off : Int32} (hr : a.layout.home? r = some (.slot off)) :
    a.Slot top (offsetAddr (a.pointer top) off) := by
  obtain ⟨hlo, hhi⟩ := Layout.slot_bounds h.layout hr
  exact ⟨r, off, hr, rfl, hlo, by omega⟩

theorem spill {r : VReg} {i : Fin 8} (hr : a.layout.home? r = some (.param i)) :
    a.Spill top (offsetAddr (a.pointer top) (paramSpillOffset (.ofNat i.val))) :=
  ⟨r, i, hr, offsetAddr_spill _ i⟩

theorem mem_area_of_owns (h : a.Owns top cell) (hb : (b - cell).toNat < 8) : b ∈ a.area top := by
  rcases h with ⟨r, off, -, rfl, hlo, hhi⟩ | (rfl | rfl) | ⟨r, i, hr, rfl⟩
  · exact mem_area_of_inside (x := off.toInt) ⟨hlo, by omega⟩ hb
  · exact mem_area_of_pointer hb
  · exact mem_area_of_inside (Layout.inside_record (by omega) le_rfl) hb
  · exact mem_area_of_inside (Layout.inside_spill (Layout.mem_paramIndices.mpr ⟨r, hr⟩)) hb

/-- The caller has lowered `sp` from its frame for a call of the callee, whose parameters are saved
between the two. -/
def Reserves (caller callee : Activation) (runtime : RuntimeSymbols) (top : Word) : Prop :=
  ∃ inst ∈ caller.frag.body, ∃ n, inst.callee runtime = some (callee.frag.label, n) ∧
    callee.entry = caller.bottom - (homeAreaSize n).toNat ∧
    ∀ cell, callee.Spill top cell → ∀ b : Word, (b - cell).toNat < 8 →
      b ∈ Area top callee.entry caller.bottom

end Activation

/-! ## Separation -/

/-- What the next instruction does to the stack, and how live activations lie on it. -/
structure Config.Separated (c : Config) (runtime : RuntimeSymbols) (top : Word) : Prop where
  /-- Writes go to slots and saved parameters of the frame that `x29` points to, but for the frame
  record itself. -/
  writes : ∀ i rest, c.running.rest = .inst i :: rest → ∀ cell ∈ i.stackWrites c.state,
    (c.state.reg .fp = c.running.pointer top ∧
      (c.running.Slot top cell ∨ c.running.Spill top cell)) ∨
    (i = .stp .fp .lr .sp ∧ c.running.Record top cell)
  reads : ∀ i rest, c.running.rest = .inst i :: rest → ∀ cell ∈ i.stackReads c.state,
    c.state.reg .fp = c.running.pointer top ∧
      (c.running.Slot top cell ∨ c.running.Spill top cell)
  homes : (c.running :: c.callers).IsChain fun callee caller => caller.Reserves callee runtime top
  areas : (c.running :: c.callers).Pairwise fun a b => Disjoint (a.area top) (b.area top)
  /-- Writes leave the cells of the callers alone. -/
  apart : ∀ i rest, c.running.rest = .inst i :: rest → ∀ cell ∈ i.stackWrites c.state,
    ∀ caller ∈ c.callers, ∀ other, caller.Owns top other → Apart other cell

/-! ## Accesses of moves -/

section Accesses
variable {a : Activation} {top caller : Word} {s : A64.State} {p q : Spot} {i : Inst} {cell : Word}

theorem mem_stackWrites_str {rt rn : Reg} {off : Int32} :
    cell ∈ (Inst.str rt rn off).stackWrites s ↔ rn.OnStack ∧ cell = offsetAddr (s.get rn) off := by
  rw [Inst.stackWrites]
  split <;> simp [*]

theorem mem_stackReads_ldr {rt rn : Reg} {off : Int32} :
    cell ∈ (Inst.ldr rt rn off).stackReads s ↔ rn.OnStack ∧ cell = offsetAddr (s.get rn) off := by
  rw [Inst.stackReads]
  split <;> simp [*]

theorem stackWrites_of_works (h : i.Works) : i.stackWrites s = [] := by
  cases i with
  | str _ _ _ | stp _ _ _ => exact absurd h id
  | _ => rfl

theorem stackReads_of_works (h : i.Works) : i.stackReads s = [] := by
  cases i with
  | ldr _ _ _ => exact absurd h id
  | _ => rfl

/-- A move writes to cells of the activation alone. -/
theorem writes_of_moves (hfits : a.Fits) (hmove : Moves a.layout p i q)
    (h : p.Holds top a caller s) (hcell : cell ∈ i.stackWrites s) :
    (s.reg .fp = a.pointer top ∧ (a.Slot top cell ∨ a.Spill top cell)) ∨
      (i = .stp .fp .lr .sp ∧ a.Record top cell) := by
  cases hmove with
  | work hworks =>
    rw [stackWrites_of_works hworks] at hcell
    exact absurd hcell List.not_mem_nil
  | storeData hn => exact absurd (mem_stackWrites_str.mp hcell).1 (Reg.not_onStack hn)
  | storeNear hr =>
    obtain ⟨-, rfl⟩ := mem_stackWrites_str.mp hcell
    have hbase : s.get .fp = a.pointer top := h.pointer
    rw [hbase]
    exact .inl ⟨h.pointer, .inl (hfits.slot hr)⟩
  | storeSaved hr =>
    obtain ⟨-, rfl⟩ := mem_stackWrites_str.mp hcell
    have hbase : s.get .fp = a.pointer top := h.pointer
    rw [hbase]
    exact .inl ⟨h.pointer, .inr (Activation.spill hr)⟩
  | storeFar hr =>
    obtain ⟨-, rfl⟩ := mem_stackWrites_str.mp hcell
    have hbase : s.get slotScratch = offsetAddr (a.pointer top) _ := h.slot _ rfl
    rw [hbase, offsetAddr, Int32.toInt_zero, addr_zero]
    exact .inl ⟨h.pointer, .inl (hfits.slot hr)⟩
  | saveRecord =>
    have hbase : s.get .sp = a.pointer top := h.sp
    rw [Inst.stackWrites, hbase] at hcell
    refine .inr ⟨rfl, ?_⟩
    rcases List.mem_cons.mp hcell with rfl | hcell
    · exact .inl rfl
    · exact .inr (List.mem_singleton.mp hcell)
  | distance hi => rcases hi with rfl | rfl <;> exact absurd hcell List.not_mem_nil
  | _ => exact absurd hcell List.not_mem_nil

theorem reads_of_moves (hfits : a.Fits) (hmove : Moves a.layout p i q)
    (h : p.Holds top a caller s) (hcell : cell ∈ i.stackReads s) :
    s.reg .fp = a.pointer top ∧ (a.Slot top cell ∨ a.Spill top cell) := by
  cases hmove with
  | work hworks =>
    rw [stackReads_of_works hworks] at hcell
    exact absurd hcell List.not_mem_nil
  | loadData _ hn => exact absurd (mem_stackReads_ldr.mp hcell).1 (Reg.not_onStack hn)
  | loadNear _ hr =>
    obtain ⟨-, rfl⟩ := mem_stackReads_ldr.mp hcell
    have hbase : s.get .fp = a.pointer top := h.pointer
    rw [hbase]
    exact ⟨h.pointer, .inl (hfits.slot hr)⟩
  | loadSaved _ hr =>
    obtain ⟨-, rfl⟩ := mem_stackReads_ldr.mp hcell
    have hbase : s.get .fp = a.pointer top := h.pointer
    rw [hbase]
    exact ⟨h.pointer, .inr (Activation.spill hr)⟩
  | loadFar _ hr =>
    obtain ⟨-, rfl⟩ := mem_stackReads_ldr.mp hcell
    have hbase : s.get slotScratch = offsetAddr (a.pointer top) _ := h.slot _ rfl
    rw [hbase, offsetAddr, Int32.toInt_zero, addr_zero]
    exact ⟨h.pointer, .inl (hfits.slot hr)⟩
  | distance hi => rcases hi with rfl | rfl <;> exact absurd hcell List.not_mem_nil
  | _ => exact absurd hcell List.not_mem_nil

theorem Walks.moves_or {l : Layout} {x : Exits} {rest : List Line}
    (h : Walks l x p (.inst i :: rest)) :
    (∃ q, Moves l p i q) ∨ i.stackWrites s = [] ∧ i.stackReads s = [] := by
  cases h with
  | move hmove => exact .inl ⟨_, hmove⟩
  | branchIf hi => rcases hi with rfl | rfl <;> exact .inr ⟨rfl, rfl⟩
  | branch | call | ret => exact .inr ⟨rfl, rfl⟩

end Accesses

/-! ## Chains -/

section Chain
variable {settings : Settings} {globals : List String} {program : Program} {top outer : Word}
  {m : Mem} {a callee : Activation} {callers : List Activation} {c : Config}

theorem Activation.Waits.reserves
    (h : a.Waits settings globals program top outer m callee callers) :
    a.Reserves callee settings.runtime top := by
  have hceiling := h.ceiling_le
  obtain ⟨n, -, ⟨inst, hinst, hcall⟩, -, hentry, -⟩ := h.call
  refine ⟨inst, hinst, n, hcall, hentry, ?_⟩
  rintro cell ⟨r, i, hr, rfl⟩ b hb
  have hlt := Layout.lt_of_mem_paramIndices (Layout.mem_paramIndices.mpr ⟨r, hr⟩)
  rw [addr_pointer] at hb
  rw [ceiling] at hceiling
  exact mem_area hb (by omega) (by omega)

theorem Suspended.isChain (h : Suspended settings globals program top outer m callee callers) :
    (callee :: callers).IsChain fun callee caller =>
      caller.Reserves callee settings.runtime top := by
  induction h with
  | outermost => exact .singleton _
  | call hwaits _ ih => exact .cons_cons hwaits.reserves ih

theorem apart_of_disjoint {other cell : Word} (hdisjoint : Disjoint (callee.area top) (a.area top))
    (hcell : callee.Owns top cell) (hother : a.Owns top other) : Apart other cell := by
  intro b hb
  by_contra hlt
  exact Set.disjoint_left.mp hdisjoint (Activation.mem_area_of_owns hcell (by omega))
    (Activation.mem_area_of_owns hother hb)

theorem Config.Sound.separated (h : c.Sound settings globals program top outer) :
    c.Separated settings.runtime top := by
  obtain ⟨p, hwalks, hholds⟩ := h.spot
  have hwrites : ∀ i rest, c.running.rest = .inst i :: rest → ∀ cell ∈ i.stackWrites c.state,
      (c.state.reg .fp = c.running.pointer top ∧
        (c.running.Slot top cell ∨ c.running.Spill top cell)) ∨
      (i = .stp .fp .lr .sp ∧ c.running.Record top cell) := by
    intro i rest hrest cell hcell
    rw [hrest] at hwalks
    rcases hwalks.moves_or with ⟨q, hmove⟩ | ⟨hnone, -⟩
    · exact writes_of_moves h.loaded.fits hmove hholds hcell
    · rw [hnone] at hcell
      exact absurd hcell List.not_mem_nil
  have hareas := h.suspended.pairwise_disjoint h.loaded
  refine ⟨hwrites, ?_, h.suspended.isChain, hareas, ?_⟩
  · intro i rest hrest cell hcell
    rw [hrest] at hwalks
    rcases hwalks.moves_or with ⟨q, hmove⟩ | ⟨-, hnone⟩
    · exact reads_of_moves h.loaded.fits hmove hholds hcell
    · rw [hnone] at hcell
      exact absurd hcell List.not_mem_nil
  · intro i rest hrest cell hcell caller hcaller other hother
    have hown : c.running.Owns top cell := by
      rcases hwrites i rest hrest cell hcell with ⟨-, hslot | hspill⟩ | ⟨-, hrecord⟩
      · exact .inl hslot
      · exact .inr (.inr hspill)
      · exact .inr (.inl hrecord)
    exact apart_of_disjoint (List.rel_of_pairwise_cons hareas hcaller) hown hother

theorem Config.Sound.mem_eq {text : List Line} {env : Env} {c' : Config}
    (h : c.Sound settings globals program top outer) (hstep : c.Step env program text top c') :
    ∀ caller ∈ c.callers, ∀ b ∈ caller.area top, c'.state.mem b = c.state.mem b := by
  cases hstep with
  | skip | enter | leave => exact fun _ _ _ _ => rfl
  | outside _ _ _ _ hareas => exact fun live hlive => hareas live (List.mem_cons_of_mem _ hlive)
  | @run a callers s i rest rest' hrest hi _ hdata =>
    obtain ⟨p, hwalks, hholds⟩ := h.walks_at hrest
    cases hwalks with
    | move hmove =>
      have hkeeps : KeepsOthers a top s (exec env s i) :=
        (holds_of_moves h.loaded.fits hmove hholds hdata).2
      exact h.suspended.mem_eq h.loaded hkeeps
    | call => exact absurd rfl (hi _)
    | branchIf hcond => rcases hcond with rfl | rfl <;> exact fun _ _ _ _ => rfl
    | branch | ret => exact fun _ _ _ _ => rfl

end Chain

/-! ## Runs of straight code -/

/-- Whether an instruction goes on to the next line and writes to the stack alone. -/
def A64.Inst.quiet : Inst → Bool
  | .bl _ => false
  | .str _ rn _ => decide rn.OnStack
  | i => i.falls

theorem dataWrites_of_quiet {i : Inst} (h : i.quiet = true) (s : A64.State) :
    i.dataWrites s = [] := by
  cases i with
  | str _ rn _ => exact if_pos (of_decide_eq_true h)
  | _ => rfl

theorem falls_of_quiet {i : Inst} (h : i.quiet = true) : i.falls = true := by
  cases i with
  | bl _ => exact absurd h Bool.false_ne_true
  | str _ _ _ => rfl
  | _ => exact h

theorem reaches_quiet {env : Env} {program : Program} {text : List Line} {top : Word}
    {a : Activation} {callers : List Activation} {code : List Inst}
    (h : ∀ i ∈ code, i.quiet = true) {rest : List Line} (s : A64.State)
    (hrest : a.rest = code.map .inst ++ rest) :
    Relation.ReflTransGen (Config.Step env program text top) ⟨a, callers, s⟩
      ⟨{ a with rest }, callers, execs env code s⟩ := by
  induction code generalizing a s with
  | nil =>
    obtain ⟨frag, layout, entry, lines⟩ := a
    cases hrest
    exact .refl
  | cons i code ih =>
    have hi := h i List.mem_cons_self
    have hcall : ∀ routine, i ≠ .bl routine := by
      rintro routine rfl
      exact absurd hi Bool.false_ne_true
    have hdata : ∀ cell ∈ i.dataWrites s, ∀ b : Word, (b - cell).toNat < 8 → b ∉ stackArea top := by
      rw [dataWrites_of_quiet hi]
      exact List.forall_mem_nil _
    refine .head (.run hrest hcall (next_of_falls (falls_of_quiet hi)) hdata) ?_
    exact ih (fun j hj => h j (List.mem_cons_of_mem i hj)) (exec env s i) rfl

/-! ## Programs of two functions -/

/-- The lines of a program without global variables. -/
def linesOf (program : Program) : List Line :=
  match lowerProgram .default .initial program with
  | .ok text => text
  | .error _ => []

def stackTop : Word := 0x8000000000000000

/-- A machine with the whole stack left. -/
def bareMachine : A64.State :=
  ⟨fun r => if r = .sp then stackTop else 0, ⟨false, false, false, false⟩, fun _ => 0, []⟩

def bareEnv : Env := ⟨fun _ => 0, fun _ s => s⟩

/-- The start of a prologue. -/
def opening : List Inst := [.subImm .sp .sp 16, .stp .fp .lr .sp, .mov .fp .sp]

def twoSlots : Layout := ⟨[], [⟨0⟩, ⟨1⟩], ⟨16, 16⟩, by decide⟩

theorem length_oneParam : ([⟨0⟩] : List VReg).length ≤ 8 := by decide

def oneParam : Layout := ⟨[⟨0⟩], [], ⟨0, 0⟩, length_oneParam⟩

theorem Activation.fits_of_entry {a : Activation}
    (hlayout : Layout.ofFragment a.frag = .ok a.layout)
    (hentry : a.entry ≤ 0) (hroom : -2 ^ 61 ≤ a.entry) : a.Fits := by
  have hfits := Layout.fits_of_ofFragment hlayout
  have hle := hfits.locals_le
  refine ⟨hfits, hentry, ?_⟩
  rw [bottom]
  omega

/-- A function with two slots runs up to its call of a function with one parameter, whose frame
record is written. -/
theorem reaches_callee {program : Program} {text : List Line} {main callee : Fragment}
    {code : List Inst} {rest rest' : List Line} {e : ℤ} (hmain : main ∈ program.fragments)
    (hcallee : callee ∈ program.fragments) (hlayout : Layout.ofFragment main = .ok twoSlots)
    (hlayout' : Layout.ofFragment callee = .ok oneParam)
    (hcode : Line.after main.label text
      = some (code.map .inst ++ .inst (.bl callee.label) :: rest))
    (hcode' : Line.after callee.label text = some (opening.map .inst ++ rest'))
    (hquiet : ∀ i ∈ code, i.quiet = true)
    (hsp : (execs bareEnv code bareMachine).reg .sp = addr stackTop e) (he : e ≤ 0)
    (hroom : -2 ^ 20 ≤ e) :
    ∃ c₀, Config.Starts program text stackTop c₀ ∧
      Relation.ReflTransGen (Config.Step bareEnv program text stackTop) c₀
        ⟨⟨callee, oneParam, e, rest'⟩, [⟨main, twoSlots, 0, rest⟩],
          execs bareEnv opening ((execs bareEnv code bareMachine).set .lr 0)⟩ := by
  have hfits : (⟨main, twoSlots, 0, code.map .inst ++ .inst (.bl callee.label) :: rest⟩ :
      Activation).Fits := Activation.fits_of_entry hlayout le_rfl (by norm_num)
  have hfits' : (⟨callee, oneParam, e, opening.map .inst ++ rest'⟩ : Activation).Fits :=
    Activation.fits_of_entry hlayout' he (by dsimp only; omega)
  have henter : Config.Step bareEnv program text stackTop
      ⟨⟨main, twoSlots, 0, .inst (.bl callee.label) :: rest⟩, [], execs bareEnv code bareMachine⟩
      ⟨⟨callee, oneParam, e, opening.map .inst ++ rest'⟩, [⟨main, twoSlots, 0, rest⟩],
        (execs bareEnv code bareMachine).set .lr 0⟩ :=
    .enter rfl hcallee hlayout' hcode' hsp hfits'
  refine ⟨⟨⟨main, twoSlots, 0, code.map .inst ++ .inst (.bl callee.label) :: rest⟩, [],
    bareMachine⟩, ⟨hmain, hlayout, hcode, rfl, hfits, rfl, rfl⟩, ?_⟩
  refine (reaches_quiet hquiet bareMachine rfl).trans (.head henter ?_)
  exact reaches_quiet (by decide) _ rfl

/-! ## The whole chain -/

/-- In a chain of activations of any depth, each one writes cells of its own alone, and saves its
parameters in the room that its caller reserved. A call passes at least as many arguments as the
fragment that it enters has parameters; for an allocation, a deletion or a print that is none. -/
theorem activations_separated {settings : Settings} {symbols : SymbolTable} {program : Program}
    {text : List Line} {env : Env} {top : Word} {c₀ c : Config}
    (hlower : lowerProgram settings symbols program = .ok text)
    (hdistinct : (Line.labels text).Nodup)
    (hbranches : ∀ frag ∈ program.fragments, ∀ inst ∈ frag.body, ∀ name,
      inst.target = some name → .label name ∈ frag.body)
    (hargs : ∀ frag ∈ program.fragments, ∀ inst ∈ frag.body, ∀ callee ∈ program.fragments, ∀ n,
      inst.callee settings.runtime = some (callee.label, n) → callee.params.length ≤ n)
    (hstart : c₀.Starts program text top)
    (hrun : Relation.ReflTransGen (Config.Step env program text top) c₀ c) :
    c.Separated settings.runtime top ∧
      ∀ c', c.Step env program text top c' → ∀ caller ∈ c.callers, ∀ cell, caller.Owns top cell →
        c'.state.mem.read cell = c.state.mem.read cell := by
  have hconnected : Connected settings (symbols.globalVariables.map (·.1)) program text := by
    constructor
    · intro a ha
      exact linked_of_lowerProgram hlower hdistinct ha.frag (hbranches a.frag ha.frag) ha.layout
    · rintro a callee ha hcallee n ⟨inst, hinst, hcall⟩
      exact hargs a.frag ha.frag inst hinst callee.frag hcallee.frag n hcall
  have hsound := sound_run hconnected (sound_of_starts hconnected hstart) hrun
  refine ⟨hsound.separated, ?_⟩
  intro c' hstep caller hcaller cell hcell
  refine Mem.read_congr fun b hb => hsound.mem_eq hstep caller hcaller b ?_
  exact Activation.mem_area_of_owns hcell hb

/-- One function that passes a word to another one, which prints it. -/
def relay : Program :=
  ⟨[⟨"main", [], [.mov ⟨0⟩ (.imm 7), .call (some ⟨1⟩) "show" [⟨0⟩], .ret (some ⟨1⟩)]⟩,
    ⟨"show", [⟨0⟩], [.print ⟨0⟩, .ret (some ⟨0⟩)]⟩]⟩

/-- The code of `main` up to its call. -/
def relayCode : List Inst :=
  opening ++ [.subImm .sp .sp 16, .movImm (.x 9) 7, .str (.x 9) .fp (-8), .subImm .sp .sp 16,
    .ldr (.x 0) .fp (-8)]

theorem activations_separated_relay :
    ∃ c₀ c : Config, c₀.Starts relay (linesOf relay) stackTop ∧
      Relation.ReflTransGen (Config.Step bareEnv relay (linesOf relay) stackTop) c₀ c ∧
      c.callers.length = 1 ∧ c.Separated .default stackTop ∧
      ∀ c', c.Step bareEnv relay (linesOf relay) stackTop c' → ∀ caller ∈ c.callers, ∀ cell,
        caller.Owns stackTop cell → c'.state.mem.read cell = c.state.mem.read cell := by
  have hmain : ∃ rest, Line.after "main" (linesOf relay)
      = some (relayCode.map .inst ++ .inst (.bl "show") :: rest) := ⟨_, rfl⟩
  have hshow : ∃ rest, Line.after "show" (linesOf relay) = some (opening.map .inst ++ rest) :=
    ⟨_, rfl⟩
  obtain ⟨rest, hmain⟩ := hmain
  obtain ⟨rest', hshow⟩ := hshow
  have hsp : (execs bareEnv relayCode bareMachine).reg .sp = addr stackTop (-48) := by decide
  have hlower : lowerProgram .default .initial relay = .ok (linesOf relay) := rfl
  have hargs : ∀ frag ∈ relay.fragments, ∀ inst ∈ frag.body, ∀ callee ∈ relay.fragments, ∀ n,
      inst.callee Settings.default.runtime = some (callee.label, n) → callee.params.length ≤ n := by
    simp [relay, Instruction.callee, Settings.default, RuntimeSymbols.default]
  have hreach : ∃ c₀, Config.Starts relay (linesOf relay) stackTop c₀ ∧ _ :=
    reaches_callee List.mem_cons_self (List.mem_cons_of_mem _ List.mem_cons_self) rfl rfl hmain
      hshow (by decide) hsp (by norm_num) (by norm_num)
  obtain ⟨c₀, hstart, hrun⟩ := hreach
  exact ⟨c₀, _, hstart, hrun, rfl,
    activations_separated hlower (by decide +kernel) (by decide) hargs hstart hrun⟩

/-! ## Programs that trespass -/

/-- The next instruction writes to the stack where the activation owns nothing, or a caller does. -/
def Config.Trespasses (c : Config) (top : Word) : Prop :=
  ∃ i rest, c.running.rest = .inst i :: rest ∧ ∃ cell ∈ i.stackWrites c.state,
    ¬ c.running.Owns top cell ∨ ∃ caller ∈ c.callers, caller.Owns top cell

/-- Calls by name pass enough arguments, and still some activation writes where it may not. -/
def Ir.Program.Trespasses (program : Program) : Prop :=
  lowerProgram .default .initial program = .ok (linesOf program) ∧
  (Line.labels (linesOf program)).Nodup ∧
  (∀ frag ∈ program.fragments, ∀ inst ∈ frag.body, ∀ target function args,
    inst = .call target function args → ∀ callee ∈ program.fragments, callee.label = function →
      callee.params.length ≤ args.length) ∧
  ∃ c₀ c : Config, c₀.Starts program (linesOf program) stackTop ∧
    Relation.ReflTransGen (Config.Step bareEnv program (linesOf program) stackTop) c₀ c ∧
    c.Trespasses stackTop

/-- A program with a `malloc` of its own, which saves its parameter although an allocation makes no
room for it. -/
def ownMalloc : Program :=
  ⟨[⟨"main", [], [.mov ⟨0⟩ (.imm 5), .mov ⟨1⟩ (.imm 7), .new ⟨0⟩ "Node" 1, .ret (some ⟨1⟩)]⟩,
    ⟨"malloc", [⟨0⟩], [.print ⟨0⟩, .ret (some ⟨0⟩)]⟩]⟩

def ownMallocCode : List Inst :=
  opening ++ [.subImm .sp .sp 16, .movImm (.x 9) 5, .str (.x 9) .fp (-8), .movImm (.x 9) 7,
    .str (.x 9) .fp (-16), .movImm (.x 0) 8]

theorem trespasses_ownMalloc : ownMalloc.Trespasses := by
  have hmain : ∃ rest, Line.after "main" (linesOf ownMalloc)
      = some (ownMallocCode.map .inst ++ .inst (.bl "malloc") :: rest) := ⟨_, rfl⟩
  have hmalloc : ∃ rest, Line.after "malloc" (linesOf ownMalloc)
      = some (opening.map .inst ++ .inst (.str (.x 0) .fp 16) :: rest) := ⟨_, rfl⟩
  obtain ⟨rest, hmain⟩ := hmain
  obtain ⟨rest', hmalloc⟩ := hmalloc
  have hsp : (execs bareEnv ownMallocCode bareMachine).reg .sp = addr stackTop (-32) := by decide
  have hreach : ∃ c₀, Config.Starts ownMalloc (linesOf ownMalloc) stackTop c₀ ∧ _ :=
    reaches_callee List.mem_cons_self (List.mem_cons_of_mem _ List.mem_cons_self) rfl rfl hmain
      hmalloc (by decide) hsp (by norm_num) (by norm_num)
  obtain ⟨c₀, hstart, hrun⟩ := hreach
  refine ⟨rfl, by decide +kernel, by simp [ownMalloc], c₀, _, hstart, hrun, _, _, rfl,
    offsetAddr (addr stackTop (-48)) 16, ?_, .inr ⟨_, List.mem_cons_self, .inl ?_⟩⟩
  · refine mem_stackWrites_str.mpr ⟨.inr (.inl rfl), ?_⟩
    have hfp : (execs bareEnv opening ((execs bareEnv ownMallocCode bareMachine).set .lr 0)).get .fp
        = addr stackTop (-48) := by decide
    rw [hfp]
  · have hcell : offsetAddr (addr stackTop (-48)) 16 = offsetAddr (addr stackTop (-16)) (-16) := by
      decide
    have hlow : -((16 : UInt32).toNat : ℤ) ≤ (-16 : Int32).toInt := by decide
    exact ⟨⟨1⟩, -16, rfl, hcell, hlow, by decide⟩

/-- A program with a branch into another function. -/
def strayBranch : Program :=
  ⟨[⟨"main", [], [.branch ".L"]⟩,
    ⟨"other", [], [.mov ⟨0⟩ (.imm 5), .label ".L", .mov ⟨1⟩ (.imm 7), .ret (some ⟨1⟩)]⟩]⟩

def noSlots : Layout := ⟨[], [], ⟨0, 0⟩, by decide⟩

/-- `main` of `strayBranch` before these lines. -/
def strayMain (rest : List Line) : Activation := ⟨⟨"main", [], [.branch ".L"]⟩, noSlots, 0, rest⟩

theorem trespasses_strayBranch : strayBranch.Trespasses := by
  have hmain : ∃ rest, Line.after "main" (linesOf strayBranch)
      = some (opening.map .inst ++ .inst (.b ".L") :: rest) := ⟨_, rfl⟩
  have hlabel : ∃ rest, Line.after ".L" (linesOf strayBranch)
      = some ([Inst.movImm (.x 9) 7].map .inst ++ .inst (.str (.x 9) .fp (-16)) :: rest) := ⟨_, rfl⟩
  obtain ⟨rest, hmain⟩ := hmain
  obtain ⟨rest', hlabel⟩ := hlabel
  have hlayout : Layout.ofFragment ⟨"main", [], [.branch ".L"]⟩ = .ok noSlots := rfl
  have hfits : (strayMain (opening.map .inst ++ .inst (.b ".L") :: rest)).Fits :=
    Activation.fits_of_entry hlayout le_rfl (by norm_num [strayMain])
  have hcall : ∀ routine, Inst.b ".L" ≠ .bl routine := by
    rintro routine ⟨⟩
  have hopening : ∀ i ∈ opening, i.quiet = true := by decide
  have hmov : ∀ i ∈ [Inst.movImm (.x 9) 7], i.quiet = true := by decide
  have hbefore : Relation.ReflTransGen
      (Config.Step bareEnv strayBranch (linesOf strayBranch) stackTop)
      ⟨strayMain (opening.map .inst ++ .inst (.b ".L") :: rest), [], bareMachine⟩
      ⟨strayMain (.inst (.b ".L") :: rest), [], execs bareEnv opening bareMachine⟩ :=
    reaches_quiet hopening bareMachine rfl
  have hbranch : Config.Step bareEnv strayBranch (linesOf strayBranch) stackTop
      ⟨strayMain (.inst (.b ".L") :: rest), [], execs bareEnv opening bareMachine⟩
      ⟨strayMain ([Inst.movImm (.x 9) 7].map .inst ++ .inst (.str (.x 9) .fp (-16)) :: rest'), [],
        execs bareEnv opening bareMachine⟩ :=
    .run rfl hcall hlabel (List.forall_mem_nil _)
  have hafter : Relation.ReflTransGen
      (Config.Step bareEnv strayBranch (linesOf strayBranch) stackTop)
      ⟨strayMain ([Inst.movImm (.x 9) 7].map .inst ++ .inst (.str (.x 9) .fp (-16)) :: rest'), [],
        execs bareEnv opening bareMachine⟩
      ⟨strayMain (.inst (.str (.x 9) .fp (-16)) :: rest'), [],
        execs bareEnv [.movImm (.x 9) 7] (execs bareEnv opening bareMachine)⟩ :=
    reaches_quiet hmov _ rfl
  refine ⟨rfl, by decide +kernel, by simp [strayBranch], _, _,
    ⟨List.mem_cons_self, hlayout, hmain, rfl, hfits, rfl, rfl⟩,
    hbefore.trans (.head hbranch hafter), _, _, rfl, offsetAddr (addr stackTop (-16)) (-16), ?_, .inl ?_⟩
  · have hfp : (execs bareEnv [.movImm (.x 9) 7] (execs bareEnv opening bareMachine)).get .fp
        = addr stackTop (-16) := by decide
    refine mem_stackWrites_str.mpr ⟨.inr (.inl rfl), ?_⟩
    rw [hfp]
  · have hother : ¬ (offsetAddr (addr stackTop (-16)) (-16) = addr stackTop (-16) ∨
        offsetAddr (addr stackTop (-16)) (-16) = addr (addr stackTop (-16)) 8) := by decide
    rintro (⟨r, off, hr, -⟩ | hrecord | ⟨r, i, hr, -⟩)
    · cases hr
    · exact hother hrecord
    · cases hr

/-- Distinct labels and enough arguments for calls by name are not enough. -/
theorem trespasses_calls_by_name : ownMalloc.Trespasses ∧ strayBranch.Trespasses :=
  ⟨trespasses_ownMalloc, trespasses_strayBranch⟩

end A64Lowering
