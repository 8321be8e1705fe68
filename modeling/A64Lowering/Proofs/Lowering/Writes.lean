import Mathlib
import A64Lowering.Proofs.Stack.Discipline

/-! # The registers that a function leaves alone

* `Inst.writes`: the registers that an instruction writes. `reg_exec`: the others are as before.
* `Reg.Reserved`: the registers that are not the function's to write. `reg_of_reaches`: a register
  that no line writes is the same on a whole run.
* `Site.Addressed`: the slot scratch register is written only to address the next access of memory.
* `Site.Spares`: what the code of one instruction writes. `spares_of_assembles`.
* `lowerFragment_spares_registers`: what the code of a function writes. -/
namespace A64Lowering
set_option autoImplicit false

open A64 Ir

/-! ## Written registers -/

namespace A64

/-- The registers that an instruction writes. A call writes the link register; what the routine does
is its own affair. -/
def Inst.writes : Inst → List Reg
  | .ldp rt₁ rt₂ _ => [rt₁, rt₂]
  | .bl _ => [.lr]
  | i => i.destination?.toList

/-- Whether an instruction reads or writes memory. -/
def Inst.accesses : Inst → Bool
  | .ldr .. | .str .. | .stp .. | .ldp .. | .ldrLiteral .. => true
  | _ => false

/-- The registers that no function writes: those of the platform and of callers, `x8` and `x17` to
`x28`, and what is no general register. -/
def Reg.Reserved : Reg → Prop
  | .x n => n = 8 ∨ 17 ≤ n ∧ n ≤ 28 ∨ 30 < n
  | .sp => False
  | .xzr => True

instance (r : Reg) : Decidable r.Reserved :=
  match r with
  | .x n => inferInstanceAs (Decidable (n = 8 ∨ 17 ≤ n ∧ n ≤ 28 ∨ 30 < n))
  | .sp => .isFalse id
  | .xzr => .isTrue trivial

section Writes
variable {env : Env} {i : Inst} {r : Reg}

theorem mem_writes (h : r ∈ i.writes) : i.destination? = some r ∨
    (r = .lr ∧ ∃ routine, i = .bl routine) ∨ ∃ rt₁ rt₂ rn, i = .ldp rt₁ rt₂ rn := by
  cases i with
  | ldp rt₁ rt₂ rn => exact .inr (.inr ⟨rt₁, rt₂, rn, rfl⟩)
  | bl routine => exact .inr (.inl ⟨List.mem_singleton.mp h, routine, rfl⟩)
  | _ => exact .inl (Option.mem_toList.mp h)

theorem writes_of_destination (h : i.destination? = some r) : i.writes = [r] := by
  cases i with
  | ldp | bl => cases h
  | _ => exact congrArg Option.toList h

/-- What an instruction does not write it leaves as it is. -/
theorem reg_exec (hcall : ∀ routine, i ≠ .bl routine) (hr : r ∉ i.writes) (s : State) :
    (exec env s i).reg r = s.reg r := by
  cases i with
  | bl routine => exact absurd rfl (hcall routine)
  | ldp rt₁ rt₂ rn =>
    have hne : r ≠ rt₁ ∧ r ≠ rt₂ := by simpa [Inst.writes] using hr
    exact (State.reg_set_of_ne _ _ hne.2).trans (s.reg_set_of_ne _ hne.1)
  | cmp | str | stp | b | cbz | cbnz | ret => rfl
  | _ => exact s.reg_set_of_ne _ fun heq => hr (List.mem_singleton.mpr heq)

/-- One line of a path leaves a register as it is that no line writes. -/
theorem reg_of_follows {code : List Line} {c d : List Line × State} (hsuffix : c.1 <:+ code)
    (hr : ∀ i, .inst i ∈ code → r ∉ i.writes) (h : Follows env {r} code c d) :
    d.1 <:+ code ∧ d.2.reg r = c.2.reg r := by
  have hrest : ∀ {line : Line} {rest : List Line}, line :: rest <:+ code → rest <:+ code :=
    fun hsuffix => (List.suffix_cons _ _).trans hsuffix
  cases h with
  | skip => exact ⟨hrest hsuffix, rfl⟩
  | fall _ hcall =>
    exact ⟨hrest hsuffix, reg_exec hcall (hr _ (hsuffix.subset List.mem_cons_self)) _⟩
  | call hkept => exact ⟨hrest hsuffix, hkept r rfl⟩
  | jump _ htarget => exact ⟨after_suffix htarget, rfl⟩
  | pass => exact ⟨hrest hsuffix, rfl⟩

theorem reg_of_path {code : List Line} {c d : List Line × State} (hsuffix : c.1 <:+ code)
    (hr : ∀ i, .inst i ∈ code → r ∉ i.writes)
    (h : Relation.ReflTransGen (Follows env {r} code) c d) :
    d.1 <:+ code ∧ d.2.reg r = c.2.reg r := by
  induction h with
  | refl => exact ⟨hsuffix, rfl⟩
  | tail _ hstep ih =>
    obtain ⟨hsuffix', hreg⟩ := reg_of_follows ih.1 hr hstep
    exact ⟨hsuffix', hreg.trans ih.2⟩

/-- A run leaves a register as it is that neither a line nor a routine writes. -/
theorem reg_of_reaches {code : List Line} {c d : List Line × State} (hsuffix : c.1 <:+ code)
    (hr : ∀ i, .inst i ∈ code → r ∉ i.writes)
    (hroutine : ∀ routine s, (env.routine routine s).reg r = s.reg r)
    (h : Reaches env code c d) : d.2.reg r = c.2.reg r := by
  have hkept : ∀ routine s, ∀ q ∈ ({r} : Set Reg), (env.routine routine s).reg q = s.reg q := by
    rintro routine s q rfl
    exact hroutine routine s
  exact (reg_of_path hsuffix hr (follows_of_reaches hkept h)).2

theorem lr_notMem_working : Reg.lr ∉ Reg.working := by
  rintro (⟨n, -, hhi, heq⟩ | ⟨n, -, hhi, heq⟩) <;> cases heq <;> exact absurd hhi (by decide)

theorem slotScratch_notMem_working : slotScratch ∉ Reg.working := by
  rintro (h | h) <;> exact Reg.ne_of_mem_among h Reg.slotScratch_mem (by omega) rfl

theorem not_reserved_of_working (h : r ∈ Reg.working) : ¬ r.Reserved := by
  rcases h with ⟨n, hlo, hhi, rfl⟩ | ⟨n, hlo, hhi, rfl⟩ <;>
    simp only [Reg.Reserved, ← UInt8.toNat_inj, UInt8.le_iff_toNat_le, UInt8.lt_iff_toNat_lt,
      UInt8.reduceToNat] <;> omega

end Writes

/-- The instructions among lines, in order. -/
def Line.instructions (lines : List Line) : List Inst :=
  lines.filterMap fun
    | .inst i => some i
    | _ => none

section Instructions
variable {lines lines' : List Line} {code : List Inst} {i : Inst}

@[simp] theorem instructions_append :
    Line.instructions (lines ++ lines') = Line.instructions lines ++ Line.instructions lines' :=
  List.filterMap_append

@[simp] theorem instructions_map_inst : Line.instructions (code.map .inst) = code := by
  rw [Line.instructions, List.filterMap_map]
  exact List.filterMap_some

theorem instructions_annotation (s : Site) (inst : Instruction) :
    Line.instructions (s.annotation inst) = [] :=
  Site.filterMap_annotationLines (fun _ => rfl) s inst

theorem mem_instructions : i ∈ Line.instructions lines ↔ .inst i ∈ lines := by
  rw [Line.instructions, List.mem_filterMap]
  constructor
  · rintro ⟨line, hline, heq⟩
    cases line with
    | inst j =>
      cases heq
      exact hline
    | label | directive | comment => cases heq
  · exact fun h => ⟨_, h, rfl⟩

end Instructions
end A64

/-! ## The slot scratch register -/

/-- An instruction of the code `before ++ i :: after` that takes part in bringing the address of a
slot into the slot scratch register. The slot is out of the reach of an offset, and the next access
of memory is at this address. -/
inductive Site.Addresses (s : Site) : List Inst → Inst → List Inst → Prop where
  | intro {r : VReg} {offset : Int32} {first last : List Inst} {i access : Inst}
      (front rest : List Inst) (hhome : s.layout.home? r = some (.slot offset))
      (hoffset : offset < minDirectOffset)
      (haddress : ∀ env t, execs env (first ++ i :: last) t
        = t.set slotScratch (offsetAddr (t.reg .fp) offset))
      (hlast : ∀ j ∈ last, j.accesses = false)
      (haccess : (∃ dst, access = .ldr dst slotScratch 0) ∨
        ∃ src, access = .str src slotScratch 0) :
      Addresses s (front ++ first) i (last ++ access :: rest)

/-- Whatever writes the slot scratch register does so to address the next access of memory. -/
def Site.Addressed (s : Site) (code : List Inst) : Prop :=
  ∀ before i after, code = before ++ i :: after → slotScratch ∈ i.writes →
    s.Addresses before i after

section Addressed
variable {s : Site} {i : Inst} {code code' before after : List Inst}

theorem Site.Addresses.append_left (h : s.Addresses before i after) (front : List Inst) :
    s.Addresses (front ++ before) i after := by
  obtain ⟨front', rest, hhome, hoffset, haddress, hlast, haccess⟩ := h
  rw [← List.append_assoc]
  exact .intro _ _ hhome hoffset haddress hlast haccess

theorem Site.Addresses.append_right (h : s.Addresses before i after) (back : List Inst) :
    s.Addresses before i (after ++ back) := by
  obtain ⟨front, rest, hhome, hoffset, haddress, hlast, haccess⟩ := h
  rw [List.append_assoc, List.cons_append]
  exact .intro _ _ hhome hoffset haddress hlast haccess

theorem addressed_of_notMem (h : ∀ i ∈ code, slotScratch ∉ i.writes) : s.Addressed code := by
  rintro before i after rfl hi
  exact absurd hi (h i (List.mem_append_right _ List.mem_cons_self))

theorem Site.Addressed.append (h : s.Addressed code) (h' : s.Addressed code') :
    s.Addressed (code ++ code') := by
  intro before i after heq hi
  rcases List.append_eq_append_iff.mp heq with ⟨mid, rfl, hmid⟩ | ⟨mid, rfl, hmid⟩
  · exact (h' _ _ _ hmid hi).append_left code
  · cases mid with
    | nil => simpa using (h' [] i after hmid.symm hi).append_left before
    | cons j mid =>
      cases hmid
      exact (h _ _ _ rfl hi).append_right code'

theorem writes_slotAddress (offset : Int32) (hi : i ∈ slotAddress offset) :
    i.writes = [slotScratch] := by
  refine writes_of_destination ?_
  rw [slotAddress] at hi
  split at hi
  · rw [List.mem_singleton.mp hi]
    rfl
  · rw [loadImm] at hi
    split at hi <;> rcases List.mem_pair.mp hi with rfl | rfl <;> rfl

/-- Only the first instruction may bring a literal from memory. -/
theorem accesses_slotAddress {offset : Int32} {first last : List Inst}
    (h : slotAddress offset = first ++ i :: last) : ∀ j ∈ last, j.accesses = false := by
  have hlater : ∀ j ∈ (slotAddress offset).tail, j.accesses = false := by
    rw [slotAddress]
    split
    · exact fun j hj => absurd hj List.not_mem_nil
    · rw [loadImm]
      split <;> exact List.forall_mem_singleton.mpr rfl
  intro j hj
  refine hlater j ?_
  rw [h]
  cases first with
  | nil => exact hj
  | cons _ first => exact List.mem_append_right _ (List.mem_cons_of_mem _ hj)

theorem addressed_access (fits : s.layout.Fits) {r : VReg} {offset : Int32} {access : Inst}
    (hhome : s.layout.home? r = some (.slot offset)) (hoffset : offset < minDirectOffset)
    (haccess : (∃ dst, access = .ldr dst slotScratch 0) ∨ ∃ src, access = .str src slotScratch 0)
    (hwrites : slotScratch ∉ access.writes) : s.Addressed (slotAddress offset ++ [access]) := by
  obtain ⟨hlo, hhi⟩ := Layout.slot_bounds fits hhome
  have hlocals := fits.locals_le
  intro before i after heq hi
  have hother : i ≠ access := by
    rintro rfl
    exact hwrites hi
  rcases List.append_eq_append_iff.mp heq with ⟨mid, rfl, hmid⟩ | ⟨mid, hblock, hmid⟩
  · cases mid with
    | nil => exact absurd (List.cons.inj hmid).1.symm hother
    | cons j mid => simp at hmid
  · cases mid with
    | nil => exact absurd (List.cons.inj hmid).1 hother
    | cons j last =>
      cases hmid
      have haddress : ∀ env t, execs env (before ++ i :: last) t
          = t.set slotScratch (offsetAddr (t.reg .fp) offset) := by
        intro env t
        rw [← hblock]
        exact execs_slotAddress (by omega) (by omega)
      exact .intro [] [] hhome hoffset haddress (accesses_slotAddress hblock) haccess

end Addressed

/-! ## One instruction -/

/-- How the code of an instruction deals with the stack pointer. -/
inductive Site.StackUse : Instruction → List Inst → Prop where
  | still {inst : Instruction} {code : List Inst} (h : ∀ i ∈ code, .sp ∉ i.writes) :
      StackUse inst code
  /-- The room for the arguments of a call is made before its `bl` and given back right after. -/
  | paired {target : Option VReg} {function : String} {args : List VReg}
      {before between after : List Inst} (h : ∀ i ∈ before ++ between ++ after, .sp ∉ i.writes) :
      StackUse (.call target function args)
        (before ++ .subImm .sp .sp (homeAreaSize args.length) :: between
          ++ .bl function :: .addImm .sp .sp (homeAreaSize args.length) :: after)

/-- What the code of an instruction writes. -/
structure Site.Spares (s : Site) (inst : Instruction) (code : List Inst) : Prop where
  reserved : ∀ i ∈ code, ∀ r ∈ i.writes, ¬ r.Reserved
  scratch : s.Addressed code
  frame : ∀ i ∈ code, .fp ∉ i.writes
  link : ∀ i ∈ code, .lr ∈ i.writes → ∃ routine, i = .bl routine
  stack : Site.StackUse inst code
  /-- If the function goes on without a call, the only argument register is the target's home. -/
  args : inst.isCall = false → (∀ value, inst ≠ .ret value) → ∀ k, ∀ i ∈ code,
    argReg k ∈ i.writes → ∃ r, inst.target? = some r ∧ s.layout.home? r = some (.param k)

section Spares
variable {s : Site} {inst : Instruction} {i : Inst} {r : Reg} {code : List Inst}

theorem writes_of_form (h : s.Form inst i) (hr : r ∈ i.writes) :
    i.destination? = some r ∨ r = .lr ∧ ∃ routine, i = .bl routine := by
  rcases mem_writes hr with hi | hlink | ⟨rt₁, rt₂, rn, rfl⟩
  · exact .inl hi
  · exact .inr hlink
  · cases h with
    | compute hi | address hi => cases hi
    | jump href => cases href

/-- What the parts of code write. -/
theorem writes_of_builds (h : s.Builds inst code) : ∀ i ∈ code, ∀ r ∈ i.writes,
    s.Permits inst r ∨ r = slotScratch ∨ r = .lr ∧ ∃ routine, i = .bl routine := by
  have haddress : ∀ offset, ∀ i ∈ slotAddress offset, ∀ r ∈ i.writes, s.Permits inst r ∨
      r = slotScratch ∨ r = .lr ∧ ∃ routine, i = .bl routine := by
    intro offset i hi r hr
    rw [writes_slotAddress offset hi] at hr
    exact .inr (.inl (List.mem_singleton.mp hr))
  induction h with
  | nil => exact fun _ h => absurd h List.not_mem_nil
  | append _ _ ih ih' => exact List.forall_mem_append.mpr ⟨ih, ih'⟩
  | single h hrd =>
    refine List.forall_mem_singleton.mpr fun r hr => ?_
    rcases writes_of_form h hr with hi | hlink
    · exact .inl (hrd r hi)
    · exact .inr (.inr hlink)
  | loadFar hdst =>
    refine List.forall_mem_append.mpr ⟨haddress _, List.forall_mem_singleton.mpr fun r hr => ?_⟩
    exact .inl (List.mem_singleton.mp hr ▸ hdst)
  | storeFar src =>
    exact List.forall_mem_append.mpr
      ⟨haddress _, List.forall_mem_singleton.mpr fun r hr => absurd hr List.not_mem_nil⟩

theorem sp_notMem_of_builds (h : s.Builds inst code) : ∀ i ∈ code, .sp ∉ i.writes := by
  intro i hi hsp
  rcases writes_of_builds h i hi _ hsp with hpermits | hscratch | ⟨hlr, -⟩
  · exact sp_notMem_working (working_of_permits hpermits)
  · exact absurd hscratch (by decide)
  · exact absurd hlr (by decide)

theorem addressed_of_builds (fits : s.layout.Fits) (h : s.Builds inst code) :
    s.Addressed code := by
  induction h with
  | nil => exact addressed_of_notMem fun _ h => absurd h List.not_mem_nil
  | append _ _ ih ih' => exact ih.append ih'
  | single h hrd =>
    refine addressed_of_notMem (List.forall_mem_singleton.mpr fun hr => ?_)
    rcases writes_of_form h hr with hi | ⟨hlr, -⟩
    · exact slotScratch_notMem_working (working_of_permits (hrd _ hi))
    · exact absurd hlr (by decide)
  | loadFar hdst hhome hoffset =>
    refine addressed_access fits hhome hoffset (.inl ⟨_, rfl⟩) fun hr => ?_
    exact slotScratch_notMem_working (List.mem_singleton.mp hr ▸ working_of_permits hdst)
  | storeFar src hhome hoffset =>
    exact addressed_access fits hhome hoffset (.inr ⟨src, rfl⟩) List.not_mem_nil

/-- What the code of an instruction writes, the stack pointer included. -/
theorem writes_of_assembles (h : s.Assembles inst code) : ∀ i ∈ code, ∀ r ∈ i.writes,
    r = .sp ∨ s.Permits inst r ∨ r = slotScratch ∨ r = .lr ∧ ∃ routine, i = .bl routine := by
  cases h with
  | plain hbuilds => exact fun i hi r hr => .inr (writes_of_builds hbuilds i hi r hr)
  | call _ hbefore hbetween hafter =>
    intro i hi r hr
    simp only [List.mem_append, List.mem_cons] at hi
    rcases hi with (hi | rfl | hi) | rfl | rfl | hi
    · exact .inr (writes_of_builds hbefore i hi r hr)
    · exact .inl (List.mem_singleton.mp hr)
    · exact .inr (writes_of_builds hbetween i hi r hr)
    · exact .inr (.inr (.inr ⟨List.mem_singleton.mp hr, _, rfl⟩))
    · exact .inl (List.mem_singleton.mp hr)
    · exact .inr (writes_of_builds hafter i hi r hr)

theorem addressed_of_assembles (fits : s.layout.Fits) (h : s.Assembles inst code) :
    s.Addressed code := by
  cases h with
  | plain hbuilds => exact addressed_of_builds fits hbuilds
  | @call target function args before between after _ hbefore hbetween hafter =>
    have hsingle : ∀ (i : Inst) (r : Reg), i.writes = [r] → r ≠ slotScratch → s.Addressed [i] :=
      fun i r hi hr => addressed_of_notMem (List.forall_mem_singleton.mpr fun hmem =>
        hr (List.mem_singleton.mp (hi ▸ hmem)).symm)
    have hreserve := (hsingle (.subImm .sp .sp (homeAreaSize args.length)) .sp rfl (by decide)).append
      (addressed_of_builds fits hbetween)
    have hgiveBack := (hsingle (.addImm .sp .sp (homeAreaSize args.length)) .sp rfl (by decide)).append
      (addressed_of_builds fits hafter)
    have hcall := (hsingle (.bl function) .lr rfl (by decide)).append hgiveBack
    exact ((addressed_of_builds fits hbefore).append hreserve).append hcall

theorem stackUse_of_assembles (h : s.Assembles inst code) : Site.StackUse inst code := by
  cases h with
  | plain hbuilds => exact .still (sp_notMem_of_builds hbuilds)
  | call _ hbefore hbetween hafter =>
    exact .paired (List.forall_mem_append.mpr ⟨List.forall_mem_append.mpr
      ⟨sp_notMem_of_builds hbefore, sp_notMem_of_builds hbetween⟩, sp_notMem_of_builds hafter⟩)

theorem spares_of_assembles (fits : s.layout.Fits) (h : s.Assembles inst code) :
    s.Spares inst code := by
  have hwrites := writes_of_assembles h
  refine ⟨fun i hi r hr => ?_, addressed_of_assembles fits h, fun i hi hr => ?_,
    fun i hi hr => ?_, stackUse_of_assembles h, fun hcall hret k i hi hr => ?_⟩
  · rcases hwrites i hi r hr with rfl | hpermits | rfl | ⟨rfl, -⟩
    · decide
    · exact not_reserved_of_working (working_of_permits hpermits)
    · decide
    · decide
  · rcases hwrites i hi _ hr with hsp | hpermits | hscratch | ⟨hlr, -⟩
    · cases hsp
    · exact fp_notMem_working (working_of_permits hpermits)
    · exact absurd hscratch (by decide)
    · exact absurd hlr (by decide)
  · rcases hwrites i hi _ hr with hsp | hpermits | hscratch | ⟨-, hbl⟩
    · cases hsp
    · exact absurd (working_of_permits hpermits) lr_notMem_working
    · exact absurd hscratch (by decide)
    · exact hbl
  · rcases hwrites i hi _ hr with hsp | hpermits | hscratch | ⟨hlr, -⟩
    · cases hsp
    · rcases hpermits with htemp | ⟨j, hj, hcall' | ⟨value, hret'⟩ | htarget⟩
      · exact absurd rfl (Reg.ne_of_mem_among (Reg.argReg_mem k) htemp (by omega))
      · exact absurd hcall' (by simp [hcall])
      · exact absurd hret' (hret value)
      · rw [Reg.argReg_injective hj]
        exact htarget
    · exact absurd (hscratch ▸ working_argReg k) slotScratch_notMem_working
    · exact absurd (hlr ▸ working_argReg k) lr_notMem_working

end Spares

/-! ## Functions -/

/-- What the lines of a function write. -/
structure Site.SparesRegisters (s : Site) (p : Pool) (body : List Instruction)
    (code : List Line) : Prop where
  reserved : ∀ i, .inst i ∈ code → ∀ r ∈ i.writes, ¬ r.Reserved
  /-- Hence a run of the function leaves these registers as they are, if its routines do. -/
  kept : ∀ env, (∀ routine t r, r.Reserved → (env.routine routine t).reg r = t.reg r) →
    ∀ c d, c.1 <:+ code → Reaches env code c d → ∀ r, r.Reserved → d.2.reg r = c.2.reg r
  scratch : s.Addressed (Line.instructions code)
  /-- Apart from prologue and epilogue there is the code of the instructions. -/
  parts : ∃ parts, code = heading s.function s.layout.frame ++ parts.flatten
      ++ ending s s.layout.frame ∧
    List.Forall₂ (fun inst part => s.instLines p inst = .ok part ∧
      s.Spares inst (Line.instructions part)) body parts
  prologue : ∀ i, .inst i ∈ heading s.function s.layout.frame → ∀ r ∈ i.writes,
    r = .sp ∨ r = .fp ∧ i = .mov .fp .sp
  epilogue : ∀ i, .inst i ∈ ending s s.layout.frame → ∀ r ∈ i.writes,
    r = .sp ∨ (r = .fp ∨ r = .lr) ∧ i = .ldp .fp .lr .sp

section Functions
variable {s : Site} {p : Pool} {inst : Instruction} {body : List Instruction} {i : Inst}
  {r : Reg} {lines part : List Line} {parts : List (List Line)}

theorem spares_of_instLines (fits : s.layout.Fits) (hp : p.Temporaries)
    (h : s.instLines p inst = .ok part) : s.Spares inst (Line.instructions part) := by
  obtain ⟨code, hprints, rfl⟩ := prints_of_instLines hp h
  rw [instructions_append, instructions_annotation, List.nil_append]
  cases hprints with
  | label name => exact spares_of_assembles fits (.plain .nil)
  | code hemits =>
    rw [instructions_map_inst]
    exact spares_of_assembles fits (assembles_of_emits hemits)

theorem exists_parts (h : s.bodyLines p body = .ok lines) : ∃ parts, lines = parts.flatten ∧
    List.Forall₂ (fun inst part => s.instLines p inst = .ok part) body parts := by
  induction body generalizing lines with
  | nil =>
    cases h
    exact ⟨[], rfl, .nil⟩
  | cons inst body ih =>
    obtain ⟨first, rest, hfirst, hrest, rfl⟩ := bodyLines_cons_ok.mp h
    obtain ⟨parts, rfl, hparts⟩ := ih hrest
    exact ⟨first :: parts, rfl, .cons hfirst hparts⟩

theorem addressed_of_parts (h : List.Forall₂ (fun inst part =>
    s.Spares inst (Line.instructions part)) body parts) :
    s.Addressed (Line.instructions parts.flatten) := by
  induction h with
  | nil => exact addressed_of_notMem fun _ h => absurd h List.not_mem_nil
  | cons hfirst _ ih =>
    rw [List.flatten_cons, instructions_append]
    exact hfirst.scratch.append ih

theorem not_reserved_of_parts (h : List.Forall₂ (fun inst part =>
    s.Spares inst (Line.instructions part)) body parts) :
    ∀ i ∈ Line.instructions parts.flatten, ∀ r ∈ i.writes, ¬ r.Reserved := by
  induction h with
  | nil => exact fun _ h => absurd h List.not_mem_nil
  | cons hfirst _ ih =>
    rw [List.flatten_cons, instructions_append]
    exact List.forall_mem_append.mpr ⟨hfirst.reserved, ih⟩

theorem writes_of_prologue {f : Frame} (hi : i ∈ f.prologue) (hr : r ∈ i.writes) :
    r = .sp ∨ r = .fp ∧ i = .mov .fp .sp := by
  rw [Frame.prologue, List.mem_append] at hi
  rcases hi with hi | hi
  · simp only [List.mem_cons, List.not_mem_nil, or_false] at hi
    rcases hi with rfl | rfl | rfl
    · exact .inl (List.mem_singleton.mp hr)
    · exact absurd hr List.not_mem_nil
    · exact .inr ⟨List.mem_singleton.mp hr, rfl⟩
  · obtain ⟨n, -, rfl⟩ := List.mem_map.mp hi
    exact .inl (List.mem_singleton.mp hr)

theorem writes_of_epilogue {f : Frame} (hi : i ∈ f.epilogue) (hr : r ∈ i.writes) :
    r = .sp ∨ (r = .fp ∨ r = .lr) ∧ i = .ldp .fp .lr .sp := by
  rw [Frame.epilogue, List.mem_append] at hi
  rcases hi with hi | hi
  · obtain ⟨n, -, rfl⟩ := List.mem_map.mp hi
    exact .inl (List.mem_singleton.mp hr)
  · simp only [List.mem_cons, List.not_mem_nil, or_false] at hi
    rcases hi with rfl | rfl | rfl
    · exact .inr ⟨List.mem_pair.mp hr, rfl⟩
    · exact .inl (List.mem_singleton.mp hr)
    · exact absurd hr List.not_mem_nil

theorem not_reserved_of_whole (h : List.Forall₂ (fun inst part =>
    s.Spares inst (Line.instructions part)) body parts) :
    ∀ i, .inst i ∈ s.whole parts.flatten → ∀ r ∈ i.writes, ¬ r.Reserved := by
  intro i hi r hr
  rw [Site.whole, List.mem_append, List.mem_append] at hi
  rcases hi with (hi | hi) | hi
  · rcases writes_of_prologue (inst_mem_heading.mp hi) hr with rfl | ⟨rfl, -⟩ <;> decide
  · exact not_reserved_of_parts h i (mem_instructions.mpr hi) r hr
  · rcases writes_of_epilogue (inst_mem_ending.mp hi) hr with rfl | ⟨rfl | rfl, -⟩ <;> decide

theorem addressed_of_whole (h : List.Forall₂ (fun inst part =>
    s.Spares inst (Line.instructions part)) body parts) :
    s.Addressed (Line.instructions (s.whole parts.flatten)) := by
  rw [Site.whole, instructions_append, instructions_append]
  refine ((addressed_of_notMem fun i hi hr => ?_).append (addressed_of_parts h)).append
    (addressed_of_notMem fun i hi hr => ?_)
  · rw [mem_instructions, inst_mem_heading] at hi
    rcases writes_of_prologue hi hr with heq | ⟨heq, -⟩ <;> cases heq
  · rw [mem_instructions, inst_mem_ending] at hi
    rcases writes_of_epilogue hi hr with heq | ⟨heq | heq, -⟩ <;> cases heq

/-- A function does not write the registers that are reserved, whatever its body, its options and the
free temporaries are. It writes the stack pointer, the frame pointer and the link register only where
frames are opened and closed and around calls, the slot scratch register only to address the next
access of memory, and an argument register, if it goes on without a call, only as the home of the
instruction's target. -/
theorem lowerFragment_spares_registers {settings : Settings} {globals : List String}
    {frag : Fragment} {after : Pool} {code : List Line} (hp : p.Temporaries)
    (h : lowerFragment settings globals frag p = (.ok code, after)) :
    ∃ layout, Layout.ofFragment frag = .ok layout ∧
      (layout.site settings globals frag).SparesRegisters p frag.body code := by
  obtain ⟨layout, -, hlayout, -⟩ := lowerFragment_ok hp h
  obtain ⟨lines, hlines, rfl⟩ := bodyLines_of_lowerFragment hlayout h
  obtain ⟨parts, rfl, hparts⟩ := exists_parts hlines
  have fits : (layout.site settings globals frag).layout.Fits := Layout.fits_of_ofFragment hlayout
  have hspares := hparts.imp fun inst part hpart => And.intro hpart
    (spares_of_instLines fits hp hpart)
  have hbody := hspares.imp fun inst part hpart => hpart.2
  refine ⟨layout, hlayout, not_reserved_of_whole hbody, ?_, addressed_of_whole hbody,
    ⟨parts, rfl, hspares⟩, fun i hi r hr => writes_of_prologue (inst_mem_heading.mp hi) hr,
    fun i hi r hr => writes_of_epilogue (inst_mem_ending.mp hi) hr⟩
  intro env hroutine c d hsuffix hreaches r hr
  exact reg_of_reaches hsuffix (fun i hi hmem => not_reserved_of_whole hbody i hi r hmem hr)
    (fun routine t => hroutine routine t r hr) hreaches

end Functions

/-- A function with a slot out of reach, which it passes on and negates into its parameter. -/
def deepSlot : Fragment where
  label := "deep"
  params := [⟨33⟩]
  body := (List.range 33).map (fun n => .mov ⟨.ofNat n⟩ (.imm 1))
    ++ [.call (some ⟨33⟩) "next" [⟨32⟩], .unary .neg ⟨33⟩ ⟨32⟩]

/-- The code addresses the slot, reserves room for an argument, and writes the parameter. -/
theorem spares_registers_deepSlot :
    ∃ code after layout,
      lowerFragment .default [] deepSlot .temporaries = (.ok code, after) ∧
      .inst (.subImm slotScratch .fp 264) ∈ code ∧ .inst (.subImm .sp .sp 16) ∈ code ∧
      .inst (.mov (argReg 0) (.x 9)) ∈ code ∧ Layout.ofFragment deepSlot = .ok layout ∧
      (layout.site .default [] deepSlot).SparesRegisters .temporaries deepSlot.body code := by
  have hcode : ((lowerFragment .default [] deepSlot .temporaries).1.toOption.any fun code =>
      .inst (.subImm slotScratch .fp 264) ∈ code ∧ .inst (.subImm .sp .sp 16) ∈ code ∧
        .inst (.mov (argReg 0) (.x 9)) ∈ code) = true := by decide +kernel
  rcases hlower : lowerFragment .default [] deepSlot .temporaries with ⟨fault | code, after⟩
  · rw [hlower] at hcode
    cases hcode
  · rw [hlower] at hcode
    obtain ⟨haddress, hreserve, hparam⟩ := of_decide_eq_true hcode
    obtain ⟨layout, hlayout, hspares⟩ :=
      lowerFragment_spares_registers Pool.temporaries_free hlower
    exact ⟨code, after, layout, rfl, haddress, hreserve, hparam, hlayout, hspares⟩

end A64Lowering
