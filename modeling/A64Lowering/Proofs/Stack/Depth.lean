import Mathlib
import A64Lowering.Proofs.Lowering.Forms
import A64Lowering.Proofs.Lowering.Sequence
import A64Lowering.Proofs.Stack.Chain

/-! # How deep the stack is at each line

* `Inst.drop`: how far an instruction moves the stack pointer down. `dvd_drop_of_whole`: in a
  function all of these are multiples of 16.
* `Walks.depth_unique`: the lines that are left determine the depth.
* `Walks.inside_of_close`: before the frame is closed the frame pointer is the function's own.
* `walks_boundary`, `walks_call`, `walks_after`: the depth between two instructions of the body, at
  the call of an instruction, and after a label. -/
namespace A64Lowering
set_option autoImplicit false

open A64 Ir

/-! ## Steps of the stack pointer -/

/-- How far an instruction moves the stack pointer down. -/
def A64.Inst.drop : Inst → ℤ
  | .subImm .sp .sp n => n.toNat
  | .addImm .sp .sp n => -n.toNat
  | _ => 0

theorem drop_of_destination {i : Inst} {rd : Reg} (hi : i.destination? = some rd)
    (hrd : rd ≠ .sp) : i.drop = 0 := by
  unfold Inst.drop
  split
  · cases hi
    exact absurd rfl hrd
  · cases hi
    exact absurd rfl hrd
  · rfl

theorem sp_notMem_working : Reg.sp ∉ Reg.working := by
  rintro (h | h)
  · exact Reg.sp_notMem_among _ _ h
  · exact Reg.sp_notMem_among _ _ h

theorem fp_notMem_working : Reg.fp ∉ Reg.working := by
  rintro (h | h)
  · exact Reg.ne_of_mem_among h Reg.fp_mem (by omega) rfl
  · exact Reg.ne_of_mem_among h Reg.fp_mem (by omega) rfl

theorem drop_of_works {i : Inst} (h : i.Works) : i.drop = 0 := by
  unfold Inst.drop
  split
  · exact absurd h (Reg.sp_notMem_among _ _)
  · exact absurd h (Reg.sp_notMem_among _ _)
  · rfl

theorem depth_of_moves {l : Layout} {p q : Spot} {i : Inst} (h : Moves l p i q) :
    q.depth = p.depth + i.drop := by
  cases h with
  | work hworks => rw [drop_of_works hworks, add_zero]
  | down n => rfl
  | up n => exact sub_eq_add_neg _ _
  | distance hi => rcases hi with rfl | rfl <;> exact (add_zero _).symm
  | loadData | storeData | loadNear | storeNear | loadSaved | storeSaved | near | far | loadFar
  | storeFar | saveRecord | openFrame | closeFrame => exact (add_zero _).symm

/-! ## Multiples of 16 -/

theorem dvd_of_mem_spSteps {f : Frame} (h : 16 ∣ f.localsSize.toNat) {n : UInt32}
    (hn : n ∈ f.spSteps) : 16 ∣ n.toNat := by
  have hstep : maxSpStep.toNat = 16 * 255 := rfl
  rw [Frame.spSteps, List.mem_append] at hn
  rcases hn with hn | hn
  · rw [List.eq_of_mem_replicate hn, hstep]
    exact Nat.dvd_mul_right 16 255
  · split at hn
    · rw [List.mem_singleton.mp hn, UInt32.toNat_mod, hstep]
      omega
    · exact absurd hn List.not_mem_nil

theorem dvd_drop_of_form {s : Site} {inst : Instruction} {i : Inst} (h : s.Form inst i) :
    16 ∣ i.drop := by
  have hzero : i.drop = 0 → 16 ∣ i.drop := fun heq => by rw [heq]; exact dvd_zero 16
  cases h with
  | compute hi hrd =>
    refine hzero (drop_of_destination hi ?_)
    rintro rfl
    rcases hrd with hrd | hrd
    · exact sp_notMem_working hrd
    · exact absurd hrd (by decide)
  | address hi hrd =>
    refine hzero (drop_of_destination hi ?_)
    rintro rfl
    exact sp_notMem_working hrd
  | reserve _ hn =>
    rw [Inst.drop, homeAreaSize_toNat hn]
    omega
  | giveBack _ hn =>
    rw [Inst.drop, homeAreaSize_toNat hn]
    omega
  | jump href =>
    refine hzero ?_
    cases i <;> first | rfl | cases href
  | compare | store | call => exact hzero rfl

section Whole
variable {s : Site} {body : List Instruction} {lines : List Line} {i : Inst}

theorem dvd_drop_of_prologue {f : Frame} (h : 16 ∣ f.localsSize.toNat) (hi : i ∈ f.prologue) :
    16 ∣ i.drop := by
  rw [Frame.prologue, List.mem_append] at hi
  rcases hi with hi | hi
  · simp only [List.mem_cons, List.not_mem_nil, or_false] at hi
    rcases hi with rfl | rfl | rfl <;> decide
  · obtain ⟨n, hn, rfl⟩ := List.mem_map.mp hi
    exact Int.natCast_dvd_natCast.mpr (dvd_of_mem_spSteps h hn)

theorem dvd_drop_of_epilogue {f : Frame} (h : 16 ∣ f.localsSize.toNat) (hi : i ∈ f.epilogue) :
    16 ∣ i.drop := by
  rw [Frame.epilogue, List.mem_append] at hi
  rcases hi with hi | hi
  · obtain ⟨n, hn, rfl⟩ := List.mem_map.mp hi
    exact (Int.dvd_neg).mpr (Int.natCast_dvd_natCast.mpr (dvd_of_mem_spSteps h hn))
  · simp only [List.mem_cons, List.not_mem_nil, or_false] at hi
    rcases hi with rfl | rfl | rfl <;> decide

/-- A function moves the stack pointer by multiples of 16. -/
theorem dvd_drop_of_whole (fits : s.layout.Fits) (h : s.Lowers body lines)
    (hi : .inst i ∈ s.whole lines) : 16 ∣ i.drop := by
  have hlocals : 16 ∣ s.layout.frame.localsSize.toNat := Nat.dvd_of_mod_eq_zero fits.aligned
  rw [Site.whole, List.mem_append, List.mem_append] at hi
  rcases hi with (hi | hi) | hi
  · exact dvd_drop_of_prologue hlocals (inst_mem_heading.mp hi)
  · obtain ⟨inst, -, hform⟩ := form_of_lowers h hi
    exact dvd_drop_of_form hform
  · exact dvd_drop_of_epilogue hlocals (inst_mem_ending.mp hi)

end Whole

/-! ## Walks -/

section Walks
variable {l : Layout} {x x' : Exits} {p q : Spot} {rest : List Line}

theorem Walks.of_jump {i : Inst} {label : String} (href : i.reference? = some (.jump label))
    (h : Walks l x p (.inst i :: rest)) :
    p = l.resting ∧ x.label label ∧ ((∃ rt, i = .cbz rt label ∨ i = .cbnz rt label) →
      Walks l x l.resting rest) := by
  cases h with
  | move hmove =>
    have hfalls := falls_of_moves hmove
    cases i <;> first | exact absurd hfalls Bool.false_ne_true | cases href
  | branch hlabel =>
    cases href
    exact ⟨rfl, hlabel, fun ⟨rt, hi⟩ => by rcases hi with hi | hi <;> cases hi⟩
  | branchIf hi hlabel hrest =>
    rcases hi with rfl | rfl <;> cases href <;> exact ⟨rfl, hlabel, fun _ => hrest⟩
  | call => cases href
  | ret => cases href

/-- The lines that are left determine how deep the stack is. -/
theorem Walks.depth_unique (h : Walks l x p rest) (h' : Walks l x' q rest) :
    p.depth = q.depth := by
  induction h generalizing q with
  | move hmove _ ih =>
    cases h' with
    | move hmove' hrest' =>
      have hnext := ih hrest'
      rw [depth_of_moves hmove, depth_of_moves hmove'] at hnext
      omega
    | branch => exact absurd (falls_of_moves hmove) Bool.false_ne_true
    | branchIf hi =>
      rcases hi with rfl | rfl <;> exact absurd (falls_of_moves hmove) Bool.false_ne_true
    | call => exact absurd hmove not_moves_bl
    | ret => exact absurd (falls_of_moves hmove) Bool.false_ne_true
  | branch => rw [(h'.of_jump rfl).1]
  | branchIf hi => rcases hi with rfl | rfl <;> rw [(h'.of_jump rfl).1]
  | call _ _ _ ih =>
    obtain ⟨n, -, -, rfl, hrest'⟩ := h'.of_bl
    exact ih hrest'
  | label => rw [h'.of_label.1]
  | directive _ ih =>
    cases h' with
    | directive hrest' => exact ih hrest'
  | comment _ ih =>
    cases h' with
    | comment hrest' => exact ih hrest'
  | ret => rw [h'.of_ret]

theorem phase_of_moves {i : Inst} (h : Moves l p i q) (hopen : i ≠ .mov .fp .sp)
    (hq : q.phase = .inside) : p.phase = .inside := by
  cases h with
  | saveRecord => cases hq
  | openFrame => exact absurd rfl hopen
  | work | loadData | storeData | down | up => exact hq
  | loadNear | storeNear | loadSaved | storeSaved | near | distance | far | loadFar | storeFar
  | closeFrame => rfl

/-- Up to where the frame is closed, the frame pointer is the function's own, if the frame is not
opened on the way. -/
theorem Walks.inside_of_close {mid tail : List Line}
    (h : Walks l x p (mid ++ .inst (.ldp .fp .lr .sp) :: tail)) (hret : .inst .ret ∉ mid)
    (hopen : .inst (.mov .fp .sp) ∉ mid) : p.phase = .inside := by
  induction mid generalizing p with
  | nil =>
    cases h with
    | move hmove =>
      cases hmove with
      | work hworks => exact absurd hworks id
      | closeFrame => rfl
      | distance hi => rcases hi with hi | hi <;> cases hi
    | branchIf hi => rcases hi with hi | hi <;> cases hi
  | cons line mid ih =>
    have hret' : .inst .ret ∉ mid := fun hmem => hret (List.mem_cons_of_mem _ hmem)
    have hopen' : .inst (.mov .fp .sp) ∉ mid := fun hmem => hopen (List.mem_cons_of_mem _ hmem)
    cases h with
    | move hmove hrest =>
      refine phase_of_moves hmove ?_ (ih hrest hret' hopen')
      rintro rfl
      exact hopen List.mem_cons_self
    | branch | branchIf | call | label => rfl
    | directive hrest => exact ih hrest hret' hopen'
    | comment hrest => exact ih hrest hret' hopen'
    | ret => exact absurd List.mem_cons_self hret

end Walks

/-! ## Bodies line by line -/

section Lines
variable {s : Site} {p : Pool} {inst : Instruction} {body front back : List Instruction}
  {lines : List Line}

theorem bodyLines_cons_ok : s.bodyLines p (inst :: body) = .ok lines ↔
    ∃ first rest, s.instLines p inst = .ok first ∧ s.bodyLines p body = .ok rest ∧
      lines = first ++ rest := by
  rw [Site.bodyLines_cons]
  constructor
  · intro h
    rcases hfirst : s.instLines p inst with fault | first
    · rw [hfirst] at h
      exact absurd h nofun
    rcases hrest : s.bodyLines p body with fault | rest
    · rw [hfirst, hrest] at h
      exact absurd h nofun
    rw [hfirst, hrest] at h
    exact ⟨first, rest, rfl, rfl, (Except.ok.inj h).symm⟩
  · rintro ⟨first, rest, hfirst, hrest, rfl⟩
    rw [hfirst, hrest]
    rfl

theorem bodyLines_append_ok (h : s.bodyLines p (front ++ back) = .ok lines) :
    ∃ first rest, s.bodyLines p front = .ok first ∧ s.bodyLines p back = .ok rest ∧
      lines = first ++ rest := by
  induction front generalizing lines with
  | nil => exact ⟨[], lines, rfl, h, rfl⟩
  | cons inst front ih =>
    obtain ⟨first, rest, hfirst, hrest, rfl⟩ := bodyLines_cons_ok.mp h
    obtain ⟨others, last, hothers, hlast, rfl⟩ := ih hrest
    exact ⟨first ++ others, last, bodyLines_cons_ok.mpr ⟨first, others, hfirst, hothers, rfl⟩, hlast,
      (List.append_assoc _ _ _).symm⟩

theorem lowers_of_bodyLines (hp : p.Temporaries) (h : s.bodyLines p body = .ok lines) :
    s.Lowers body lines := by
  have hyields : Scratch.Yields (s.lowerBody body) ⟨p, []⟩ lines ⟨p, []⟩ := by
    rw [Scratch.Yields, Site.run_lowerBody_eq, h]
  exact (Site.lowers_of_lowerBody hp hyields).1

theorem prints_of_instLines (hp : p.Temporaries) (h : s.instLines p inst = .ok lines) :
    ∃ code, s.Prints inst code ∧ lines = s.annotation inst ++ code := by
  have hyields : Scratch.Yields (s.lower inst) ⟨p, []⟩ lines ⟨p, []⟩ := by
    rw [Scratch.Yields, Site.run_lower, h]
  exact (Site.prints_of_lower hp hyields).1

theorem exists_of_bl {before after : List Line} {routine : String}
    (h : s.bodyLines p body = .ok (before ++ .inst (.bl routine) :: after)) :
    ∃ front inst back first done todo, body = front ++ inst :: back ∧
      s.bodyLines p front = .ok first ∧
      s.instLines p inst = .ok (done ++ .inst (.bl routine) :: todo) ∧
      before = first ++ done := by
  induction body generalizing before with
  | nil => simpa using Except.ok.inj h
  | cons inst body ih =>
    obtain ⟨first, rest, hfirst, hrest, heq⟩ := bodyLines_cons_ok.mp h
    -- the call is in the lines of a later instruction
    have hlater : ∀ later, before = first ++ later → rest = later ++ .inst (.bl routine) :: after →
        ∃ front inst' back first' done todo, inst :: body = front ++ inst' :: back ∧
          s.bodyLines p front = .ok first' ∧
          s.instLines p inst' = .ok (done ++ .inst (.bl routine) :: todo) ∧
          before = first' ++ done := by
      rintro later rfl rfl
      obtain ⟨front, inst', back, first', done, todo, rfl, hfront, hinst', rfl⟩ := ih hrest
      exact ⟨inst :: front, inst', back, first ++ first', done, todo, rfl,
        bodyLines_cons_ok.mpr ⟨first, first', hfirst, hfront, rfl⟩, hinst',
        (List.append_assoc _ _ _).symm⟩
    rcases List.append_eq_append_iff.mp heq with ⟨mid, hmid, hrest'⟩ | ⟨later, hbefore, hrest'⟩
    · cases mid with
      | nil => exact hlater [] (by simpa using hmid.symm) (by simpa using hrest'.symm)
      | cons line todo =>
        cases hrest'
        exact ⟨[], inst, body, [], before, todo, rfl, rfl, by rw [hfirst, hmid], rfl⟩
    · exact hlater later hbefore hrest'

end Lines

/-! ## Places in a function -/

section Places
variable {s : Site} {p : Pool} {x : Exits} {inst : Instruction}
  {body front back : List Instruction} {code : List Inst} {rest : List Line}

/-- The code of a call goes down to the room for its arguments and comes back. -/
theorem call_parts (fits : s.layout.Fits) (h : s.Emits inst code) {routine : String} {n : ℕ}
    (hcallee : inst.callee s.settings.runtime = some (routine, n)) :
    n ≤ 8 ∧ ∃ before after, code = before ++ [.bl routine] ++ after ∧
      Path s.layout s.layout.resting before (s.layout.calling n) ∧
      Path s.layout (s.layout.calling n) after s.layout.resting := by
  have hx : resultReg ∈ Reg.among 0 15 := argReg_low 0
  cases h with
  | new hresult =>
    cases hcallee
    rw [Layout.calling_zero]
    exact ⟨Nat.zero_le 8, _, _, List.append_assoc _ _ s.restoreParams,
      path_saveParams.append (path_loadImm hx _),
      (path_storeResult fits hresult).append path_restoreParams⟩
  | delete hcode =>
    cases hcallee
    rw [Layout.calling_zero]
    exact ⟨Nat.zero_le 8, _, _, rfl, path_saveParams.append (path_load fits hx hcode),
      path_restoreParams⟩
  | print hcode =>
    cases hcallee
    rw [Layout.calling_zero]
    exact ⟨Nat.zero_le 8, _, _, rfl, (path_saveParams.append (path_load fits (argReg_low 1)
      hcode)).append (path_symbolAddress hx _), path_restoreParams⟩
  | @call _ _ args _ hcode =>
    cases hcallee
    obtain ⟨arguments, result, hlength, harguments, hresult, rfl⟩ := s.callFunction_ok hcode
    refine ⟨hlength, _, _, ?_, (path_saveParams.append (path_reserve _)).append
      (path_loadArgs fits (by omega) harguments), ((path_giveBack _).append
      (path_storeTarget fits hresult)).append path_restoreParams⟩
    simp only [List.append_assoc]
  | mov | binaryImm | binary | unary | compare | loadGlobal | storeGlobal | loadField | storeField
  | branch | condBranch | ret | retValue => cases hcallee

theorem bl_notMem_of_path {l : Layout} {p q : Spot} {routine : String} (h : Path l p code q) :
    .bl routine ∉ code := by
  induction h with
  | nil => exact List.not_mem_nil
  | cons hi _ ih =>
    rw [List.mem_cons, not_or]
    refine ⟨?_, ih⟩
    rintro rfl
    exact not_moves_bl hi

theorem callee_of_bl {routine : String} (h : s.Emits inst code) (hmem : .bl routine ∈ code) :
    ∃ n, inst.callee s.settings.runtime = some (routine, n) := by
  cases forms_of_emits h _ hmem with
  | compute hi => cases hi
  | address hi => cases hi
  | jump href => cases href
  | call hcallee => exact ⟨_, hcallee⟩

/-- At its call, an instruction has reserved the room for its arguments. -/
theorem walks_call (fits : s.layout.Fits) (hp : p.Temporaries) {done todo : List Line}
    {routine : String} (h : s.instLines p inst = .ok (done ++ .inst (.bl routine) :: todo))
    (hx : ∀ name n, inst.callee s.settings.runtime = some (name, n) → x.callee name n)
    (hrest : Walks s.layout x s.layout.resting rest) :
    ∃ n ≤ 8, inst.callee s.settings.runtime = some (routine, n) ∧
      Walks s.layout x (s.layout.calling n) (.inst (.bl routine) :: (todo ++ rest)) := by
  obtain ⟨lines, hprints, hlines⟩ := prints_of_instLines hp h
  have hcomment := s.inst_notMem_annotationLines inst
  have hmem : .inst (.bl routine) ∈ s.annotation inst ++ lines := by
    rw [← hlines]
    exact List.mem_append_right _ List.mem_cons_self
  replace hmem := (List.mem_append.mp hmem).resolve_left (hcomment _)
  cases hprints with
  | label name => simp at hmem
  | code hemits =>
    obtain ⟨n, hcallee⟩ := callee_of_bl hemits (inst_mem_code.mp hmem)
    obtain ⟨hn, before, after, rfl, hbefore, hafter⟩ := call_parts fits hemits hcallee
    have hfront : Line.inst (.bl routine) ∉ s.annotation inst ++ before.map .inst := by
      rw [List.mem_append, not_or, inst_mem_code]
      exact ⟨hcomment _, bl_notMem_of_path hbefore⟩
    have hback : Line.inst (.bl routine) ∉ after.map Line.inst :=
      inst_mem_code.not.mpr (bl_notMem_of_path hafter)
    have hsplit : (s.annotation inst ++ before.map .inst) ++ .inst (.bl routine) :: after.map .inst
        = done ++ .inst (.bl routine) :: todo := by
      rw [hlines]
      simp only [List.map_append, List.map_cons, List.append_assoc, List.singleton_append]
    obtain ⟨-, -, rfl⟩ := (List.append_cons_inj_of_notMem hfront hback).mp hsplit
    exact ⟨n, hn, hcallee, .call hn (hx _ _ hcallee) (hafter.walks hrest)⟩

theorem rest_of_boundary {lines first : List Line}
    (hbody : s.bodyLines p (front ++ back) = .ok lines) (hfront : s.bodyLines p front = .ok first)
    (h : s.whole lines = heading s.function s.layout.frame ++ first ++ rest) :
    ∃ last, s.bodyLines p back = .ok last ∧ rest = last ++ ending s s.layout.frame := by
  obtain ⟨first', last, hfirst, hlast, rfl⟩ := bodyLines_append_ok hbody
  obtain rfl : first = first' := Except.ok.inj (hfront.symm.trans hfirst)
  rw [Site.whole, List.append_assoc, List.append_assoc, List.append_assoc,
    List.append_cancel_left_eq, List.append_cancel_left_eq] at h
  exact ⟨last, hlast, h.symm⟩

theorem walks_last (fits : s.layout.Fits) (hp : p.Temporaries) {last : List Line}
    (hlast : s.bodyLines p back = .ok last) (hback : back ⊆ body) :
    Walks s.layout (s.exits body) s.layout.resting (last ++ ending s s.layout.frame) := by
  have hwalks := walks_label fits (lowers_of_bodyLines hp hlast) hback []
  rwa [List.append_nil] at hwalks

theorem walks_boundary (fits : s.layout.Fits) (hp : p.Temporaries) {lines first : List Line}
    (hbody : s.bodyLines p (front ++ back) = .ok lines) (hfront : s.bodyLines p front = .ok first)
    (h : s.whole lines = heading s.function s.layout.frame ++ first ++ rest) :
    Walks s.layout (s.exits (front ++ back)) s.layout.resting rest := by
  obtain ⟨last, hlast, rfl⟩ := rest_of_boundary hbody hfront h
  exact walks_last fits hp hlast (List.subset_append_right front back)

/-- After a label of the body, and after the return label, as well. -/
theorem walks_after (fits : s.layout.Fits) {lines target : List Line} (h : s.Lowers body lines)
    {name : String} (hname : name ≠ s.function)
    (htarget : Line.after name (s.whole lines) = some target) :
    Walks s.layout (s.exits body) s.layout.resting target := by
  have hwhole := after_whole hname lines []
  rw [List.append_nil, htarget] at hwhole
  by_cases hbody : Instruction.label name ∈ body
  · obtain ⟨last, hlast⟩ := exists_after hbody
    obtain ⟨lastLines, hlowers, hline⟩ := after_of_lowers h (ending s s.layout.frame ++ []) hlast
    rw [hline] at hwhole
    cases hwhole
    exact walks_label fits hlowers (mem_of_after hlast).2 []
  · have hlines : Line.label name ∉ lines := fun hmem => hbody (label_mem_of_lowers h hmem)
    have hwalks := walks_ending s (s.exits body) []
    rw [after_append_of_not_mem _ hlines] at hwhole
    rw [ending, List.append_assoc, List.append_assoc, List.singleton_append] at hwhole hwalks
    rw [Line.after] at hwhole
    split at hwhole
    · cases hwhole
      exact hwalks.of_label.2
    · rw [after_append_of_not_mem _ (label_notMem_code _ name)] at hwhole
      cases hwhole

/-- The body neither returns nor opens the frame again. -/
theorem body_keeps_frame {lines : List Line} (h : s.Lowers body lines) :
    .inst .ret ∉ lines ∧ .inst (.mov .fp .sp) ∉ lines := by
  constructor
  · intro hmem
    obtain ⟨inst, -, hform⟩ := form_of_lowers h hmem
    cases hform with
    | compute hi | address hi => cases hi
    | jump href => cases href
  · intro hmem
    obtain ⟨inst, -, hform⟩ := form_of_lowers h hmem
    cases hform with
    | compute hi hrd =>
      cases hi
      rcases hrd with hrd | hrd
      · exact fp_notMem_working hrd
      · exact absurd hrd (by decide)
    | address hi hrd =>
      cases hi
      exact fp_notMem_working hrd
    | jump href => cases href

theorem exists_of_mem_rest {α : Type} {a : α} {front back done rest : List α}
    (h : front ++ a :: back = done ++ rest) (ha : a ∈ rest) (hback : a ∉ back) :
    ∃ mid, mid ⊆ front ∧ rest = mid ++ a :: back := by
  rcases List.append_eq_append_iff.mp h with ⟨mid, -, hrest⟩ | ⟨mid, rfl, hrest⟩
  · cases mid with
    | nil => exact ⟨[], List.nil_subset _, hrest.symm⟩
    | cons b mid =>
      have hmem : a ∈ back := by
        rw [(List.cons.inj hrest).2]
        exact List.mem_append_right _ ha
      exact absurd hmem hback
  · exact ⟨mid, List.subset_append_right _ _, hrest⟩

/-- Behind the prologue and before the frame is closed, the frame pointer is the function's own. -/
theorem inside_of_opened {q : Spot} {lines done : List Line} (hlowers : s.Lowers body lines)
    (h : s.whole lines = heading s.function s.layout.frame ++ done ++ rest)
    (hclose : .inst (.ldp .fp .lr .sp) ∈ rest) (hwalks : Walks s.layout x q rest) :
    q.phase = .inside := by
  obtain ⟨hret, hopen⟩ := body_keeps_frame hlowers
  set steps := (s.layout.frame.spSteps.map (Inst.addImm .sp .sp)).map Line.inst with hsteps
  set tail := [Line.inst (.addImm .sp .sp frameRecordSize), .inst .ret,
    .directive (".size " ++ s.function ++ ", (. - " ++ s.function ++ ")")] with htail
  have hending : ending s s.layout.frame
      = .label s.returnLabel :: steps ++ .inst (.ldp .fp .lr .sp) :: tail := by
    simp [ending, Frame.epilogue, hsteps, htail]
  have hfront : ∀ i, (∀ n, i ≠ .addImm .sp .sp n) → .inst i ∉ lines →
      .inst i ∉ lines ++ .label s.returnLabel :: steps := by
    intro i hi hlines hmem
    rcases List.mem_append.mp hmem with hmem | hmem
    · exact hlines hmem
    · simp only [hsteps, List.mem_cons, reduceCtorEq, false_or, inst_mem_code] at hmem
      obtain ⟨n, -, heq⟩ := List.mem_map.mp hmem
      exact hi n heq.symm
  have hsplit : (lines ++ .label s.returnLabel :: steps) ++ .inst (.ldp .fp .lr .sp) :: tail
      = done ++ rest := by
    rw [Site.whole, hending, List.append_assoc, List.append_assoc,
      List.append_cancel_left_eq] at h
    rw [← h, List.append_assoc]
  -- what is left starts in the body or in the epilogue, up to where the frame is closed
  obtain ⟨mid, hsub, rfl⟩ := exists_of_mem_rest hsplit hclose (by simp [htail])
  refine hwalks.inside_of_close ?_ ?_
  · exact fun hmem => hfront _ (by simp) hret (hsub hmem)
  · exact fun hmem => hfront _ (by simp) hopen (hsub hmem)

end Places
end A64Lowering
