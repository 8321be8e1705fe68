import Mathlib
import A64Lowering.Proofs.Lowering.FragmentMeaning
import A64Lowering.Proofs.Stack.Depth

/-! # The stack pointer on every path

* `Follows`: one line of a path through code, where a conditional branch goes either way and a call
  may change everything but some registers. `follows_of_reaches`: runs are such paths.
* `Spot.Sees`: what a spot says about `sp` and `x29`. `sees_of_moves`: a move keeps it true.
* `OnPath`: what holds at every line of a path. `onPath_start`, `onPath_follows`, `onPath_run`.
* `walks_bl`: a call of a function is that of an instruction of its body.
* `lowerFragment_keeps_stack`: `sp` and `x29` on all paths through a lowered function. -/
namespace A64Lowering
set_option autoImplicit false

open A64 Ir

/-! ## Paths -/

namespace A64

/-- One line of a path through `code`. A conditional branch goes either way, and a call may change
all but the registers in `kept`. -/
inductive Follows (env : Env) (kept : Set Reg) (code : List Line) :
    List Line × State → List Line × State → Prop where
  | skip {line : Line} {rest : List Line} {s : State} (hline : ∀ i, line ≠ .inst i) :
      Follows env kept code (line :: rest, s) (rest, s)
  | fall {i : Inst} {rest : List Line} {s : State} (hfalls : i.falls = true)
      (hcall : ∀ routine, i ≠ .bl routine) :
      Follows env kept code (.inst i :: rest, s) (rest, exec env s i)
  | call {routine : String} {rest : List Line} {s t : State}
      (hkept : ∀ r ∈ kept, t.reg r = s.reg r) :
      Follows env kept code (.inst (.bl routine) :: rest, s) (rest, t)
  | jump {i : Inst} {label : String} {rest target : List Line} {s : State}
      (href : i.reference? = some (.jump label)) (htarget : Line.after label code = some target) :
      Follows env kept code (.inst i :: rest, s) (target, s)
  | pass {i : Inst} {rt : Reg} {label : String} {rest : List Line} {s : State}
      (hi : i = .cbz rt label ∨ i = .cbnz rt label) :
      Follows env kept code (.inst i :: rest, s) (rest, s)

section Follows
variable {env : Env} {kept : Set Reg} {code : List Line} {c d : List Line × State}

/-- The steps of the machine are among them, if the routines that are called keep the registers. -/
theorem follows_of_step
    (hkept : ∀ routine s, ∀ r ∈ kept, (env.routine routine s).reg r = s.reg r)
    (h : step env code c = some d) : Follows env kept code c d := by
  obtain ⟨lines, s⟩ := c
  cases lines with
  | nil => cases h
  | cons line rest =>
    cases line with
    | inst i =>
      obtain ⟨target, hnext, rfl⟩ := Option.map_eq_some_iff.mp h
      cases i with
      | b label => exact .jump rfl hnext
      | cbz rt label =>
        rw [next] at hnext
        split at hnext
        · exact .jump rfl hnext
        · cases hnext
          exact .pass (.inl rfl)
      | cbnz rt label =>
        rw [next] at hnext
        split at hnext
        · cases hnext
          exact .pass (.inr rfl)
        · exact .jump rfl hnext
      | bl routine =>
        cases hnext
        exact .call (hkept routine s)
      | ret => cases hnext
      | _ =>
        cases hnext
        exact .fall rfl (by simp)
    | label _ | directive _ | comment _ =>
      cases h
      exact .skip (by simp)

theorem follows_of_reaches
    (hkept : ∀ routine s, ∀ r ∈ kept, (env.routine routine s).reg r = s.reg r)
    (h : Reaches env code c d) : Relation.ReflTransGen (Follows env kept code) c d :=
  Relation.ReflTransGen.mono (fun _ _ => follows_of_step hkept) _ _ h

end Follows
end A64

/-! ## What spots say -/

/-- What a spot says about the stack and frame pointers of a function that was entered with this
stack pointer. -/
structure Spot.Sees (p : Spot) (kept : Set Reg) (entry : Word) (s : A64.State) : Prop where
  sp : s.reg .sp = addr entry (-p.depth)
  fp : .fp ∈ kept → p.phase = .inside → s.reg .fp = addr entry (-16)

section Sees
variable {env : Env} {kept : Set Reg} {entry : Word} {s t : A64.State} {l : Layout} {p q : Spot}
  {i : Inst}

theorem Spot.Sees.of_reg_eq (h : p.Sees kept entry s) (hsp : t.reg .sp = s.reg .sp)
    (hfp : .fp ∈ kept → t.reg .fp = s.reg .fp) : p.Sees kept entry t :=
  ⟨hsp.trans h.sp, fun hkept hphase => (hfp hkept).trans (h.fp hkept hphase)⟩

theorem Spot.Sees.set (h : p.Sees kept entry s) {r : Reg} (hr : r ∈ Reg.among 0 16) (v : Word) :
    p.Sees kept entry (s.set r v) := by
  refine h.of_reg_eq (s.reg_set_of_ne v ?_) fun _ => s.reg_set_of_ne v ?_
  · rintro rfl
    exact Reg.sp_notMem_among _ _ hr
  · rintro rfl
    exact Reg.ne_of_mem_among hr Reg.fp_mem (by omega) rfl

theorem Spot.Sees.set_sp (h : p.Sees kept entry s) {d : ℤ} {v : Word}
    (hv : v = addr entry (-d)) : Spot.Sees ⟨d, p.phase, .nothing⟩ kept entry (s.set .sp v) := by
  refine ⟨(s.reg_set_self _ _).trans hv, fun hkept hphase => ?_⟩
  rw [s.reg_set_of_ne v (show Reg.fp ≠ .sp by decide)]
  exact h.fp hkept hphase

theorem sees_of_moves (hmove : Moves l p i q) (h : p.Sees kept entry s) :
    q.Sees kept entry (exec env s i) := by
  have hlow : ∀ {r : Reg}, r ∈ Reg.among 0 15 → r ∈ Reg.among 0 16 := fun hr =>
    Reg.among_subset le_rfl (by omega) hr
  have hscratch : slotScratch ∈ Reg.among 0 16 :=
    Reg.among_subset (by omega) le_rfl Reg.slotScratch_mem
  cases hmove with
  | work hworks =>
    have hchanges : Changes (Reg.among 0 15) s (exec env s i) := changes_of_works hworks
    refine h.of_reg_eq (hchanges.reg _ (Reg.sp_notMem_among _ _)) fun _ => hchanges.reg _ ?_
    exact fun hmem => Reg.ne_of_mem_among hmem Reg.fp_mem (by omega) rfl
  | loadData ht | loadNear ht | loadSaved ht => exact h.set (hlow ht) _
  | loadFar ht => exact ⟨(h.set (hlow ht) _).sp, (h.set (hlow ht) _).fp⟩
  | storeData | storeNear | storeSaved => exact h.of_reg_eq rfl fun _ => rfl
  | storeFar => exact ⟨h.sp, h.fp⟩
  | near => exact ⟨(h.set hscratch _).sp, (h.set hscratch _).fp⟩
  | distance hi =>
    rcases hi with rfl | rfl <;> exact ⟨(h.set hscratch _).sp, (h.set hscratch _).fp⟩
  | far => exact ⟨(h.set hscratch _).sp, (h.set hscratch _).fp⟩
  | @down d f n =>
    refine h.set_sp ?_
    rw [A64.State.get_sp, h.sp, addr_addr]
    congr 1
    ring
  | @up d f n =>
    refine h.set_sp ?_
    rw [A64.State.get_sp, h.sp, addr_addr]
    congr 1
    ring
  | saveRecord => exact ⟨h.sp, fun _ hphase => by cases hphase⟩
  | openFrame =>
    refine ⟨(s.reg_set_of_ne _ (show Reg.sp ≠ .fp by decide)).trans h.sp, fun _ _ => ?_⟩
    exact (s.reg_set_self _ _).trans h.sp
  | closeFrame =>
    refine ⟨?_, fun _ hphase => by cases hphase⟩
    have hkeeps : ∀ v v' : Word, ((s.set .fp v).set .lr v').reg .sp = s.reg .sp := by
      intro v v'
      rw [A64.State.reg_set_of_ne _ _ (show Reg.sp ≠ .lr by decide),
        A64.State.reg_set_of_ne _ _ (show Reg.sp ≠ .fp by decide)]
    exact (hkeeps _ _).trans h.sp

end Sees

/-! ## Lines of a path -/

theorem after_suffix {name : String} {code target : List Line}
    (h : Line.after name code = some target) : target <:+ code := by
  induction code with
  | nil => cases h
  | cons line code ih =>
    cases line with
    | label l =>
      rw [Line.after] at h
      split at h
      · cases h
        exact List.suffix_cons _ _
      · exact (ih h).trans (List.suffix_cons _ _)
    | inst _ | directive _ | comment _ => exact (ih h).trans (List.suffix_cons _ _)

/-- At every line of a path through a function, the lines that are left walk from a spot that is
right about the machine. -/
structure OnPath (l : Layout) (x : Exits) (kept : Set Reg) (entry : Word) (code : List Line)
    (c : List Line × A64.State) : Prop where
  suffix : c.1 <:+ code
  spot : ∃ p, Walks l x p c.1 ∧ p.Sees kept entry c.2 ∧ 16 ∣ p.depth

section OnPath
variable {env : Env} {kept : Set Reg} {entry : Word} {l : Layout} {x : Exits} {code : List Line}
  {c d : List Line × A64.State}

theorem onPath_follows (hkept : .sp ∈ kept) (hdrop : ∀ i, .inst i ∈ code → 16 ∣ i.drop)
    (hlabel : ∀ name target, x.label name → Line.after name code = some target →
      Walks l x l.resting target)
    (h : OnPath l x kept entry code c) (hstep : Follows env kept code c d) :
    OnPath l x kept entry code d := by
  obtain ⟨hsuffix, p, hwalks, hsees, haligned⟩ := h
  have hcons : ∀ {line : Line} {rest : List Line}, line :: rest <:+ code → rest <:+ code :=
    fun hsuffix => (List.suffix_cons _ _).trans hsuffix
  cases hstep with
  | @skip line rest s hline =>
    refine ⟨hcons hsuffix, p, ?_, hsees, haligned⟩
    cases hwalks with
    | move | branch | branchIf | call | ret => exact absurd rfl (hline _)
    | label hrest | directive hrest | comment hrest => exact hrest
  | @fall i rest s hfalls hcall =>
    refine ⟨hcons hsuffix, ?_⟩
    cases hwalks with
    | @move _ q _ _ hmove hrest =>
      refine ⟨q, hrest, sees_of_moves hmove hsees, ?_⟩
      rw [depth_of_moves hmove]
      exact dvd_add haligned (hdrop i (hsuffix.subset List.mem_cons_self))
    | branch => exact absurd hfalls Bool.false_ne_true
    | branchIf hi => rcases hi with rfl | rfl <;> exact absurd hfalls Bool.false_ne_true
    | call => exact absurd rfl (hcall _)
    | ret => exact absurd hfalls Bool.false_ne_true
  | @call routine rest s t hkeeps =>
    obtain ⟨n, -, -, rfl, hrest⟩ := hwalks.of_bl
    exact ⟨hcons hsuffix, _, hrest, hsees.of_reg_eq (hkeeps .sp hkept) (hkeeps .fp), haligned⟩
  | jump href htarget =>
    obtain ⟨rfl, hname, -⟩ := hwalks.of_jump href
    exact ⟨after_suffix htarget, _, hlabel _ _ hname htarget, hsees, haligned⟩
  | @pass i rt label rest s hi =>
    have href : i.reference? = some (.jump label) := by rcases hi with rfl | rfl <;> rfl
    obtain ⟨rfl, -, hrest⟩ := hwalks.of_jump href
    exact ⟨hcons hsuffix, _, hrest ⟨rt, hi⟩, hsees, haligned⟩

theorem onPath_run (hkept : .sp ∈ kept) (hdrop : ∀ i, .inst i ∈ code → 16 ∣ i.drop)
    (hlabel : ∀ name target, x.label name → Line.after name code = some target →
      Walks l x l.resting target)
    (h : OnPath l x kept entry code c) (hpath : Relation.ReflTransGen (Follows env kept code) c d) :
    OnPath l x kept entry code d := by
  induction hpath with
  | refl => exact h
  | tail _ hstep ih => exact onPath_follows hkept hdrop hlabel ih hstep

theorem OnPath.sp_eq (h : OnPath l x kept entry code c) {x' : Exits} {q : Spot}
    (hwalks : Walks l x' q c.1) : c.2.reg .sp = addr entry (-q.depth) := by
  obtain ⟨-, p, hwalks', hsees, -⟩ := h
  rw [hsees.sp, hwalks'.depth_unique hwalks]

theorem addr_aligned (hentry : entry.toNat % 16 = 0) {d : ℤ} (hd : 16 ∣ d) :
    (addr entry (-d)).toNat % 16 = 0 := by
  obtain ⟨n, rfl⟩ := hd
  rw [addr, BitVec.toNat_add, BitVec.toNat_ofInt]
  omega

end OnPath

/-! ## Functions -/

theorem homeAreaSize_of_callee {runtime : RuntimeSymbols} {inst : Instruction} {routine : String}
    {n : ℕ} (h : inst.callee runtime = some (routine, n)) (hn : n ≤ 8) :
    (homeAreaSize n).toNat = inst.homeArea := by
  rw [homeAreaSize_toNat hn]
  cases inst with
  | new _ _ _ | delete _ | print _ | call _ _ _ =>
    cases h
    rfl
  | _ => cases h

section Function
variable {s : Site} {p : Pool} {body : List Instruction} {lines tail : List Line}
  {routine : String}

theorem bodyLines_of_lowerFragment {settings : Settings} {globals : List String}
    {frag : Fragment} {layout : Layout} {code : List Line} {after : Pool}
    (hlayout : Layout.ofFragment frag = .ok layout)
    (h : lowerFragment settings globals frag p = (.ok code, after)) :
    ∃ lines, (layout.site settings globals frag).bodyLines p frag.body = .ok lines ∧
      code = (layout.site settings globals frag).whole lines := by
  have hbody : (frag.body.mapM ((layout.site settings globals frag).instLines p)).map List.flatten
      = (layout.site settings globals frag).bodyLines p frag.body := by
    rw [Site.bodyLines, Site.run_lowerBody]
  rw [lowerFragment_of_layout settings globals p hlayout, hbody, Prod.mk.injEq] at h
  rcases hlines : (layout.site settings globals frag).bodyLines p frag.body with fault | lines
  · rw [hlines] at h
    cases h.1
  · rw [hlines] at h
    exact ⟨lines, rfl, (Except.ok.inj h.1).symm⟩

theorem split_of_notMem {α : Type} {a : α} {front mid back before tail : List α}
    (h : front ++ mid ++ back = before ++ a :: tail) (hfront : a ∉ front) (hback : a ∉ back) :
    ∃ first last, mid = first ++ a :: last ∧ before = front ++ first ∧ tail = last ++ back := by
  rcases List.append_eq_append_iff.mp h with ⟨rest, -, rfl⟩ | ⟨rest, hleft, hright⟩
  · exact absurd (List.mem_append_right _ List.mem_cons_self) hback
  cases rest with
  | nil =>
    obtain rfl : a :: tail = back := hright
    exact absurd List.mem_cons_self hback
  | cons line last =>
    cases hright
    rcases List.append_eq_append_iff.mp hleft with ⟨first, rfl, rfl⟩ | ⟨rest, rfl, hmid⟩
    · exact ⟨first, last, rfl, rfl, rfl⟩
    · cases rest with
      | nil => exact ⟨[], last, hmid.symm, by rw [List.append_nil, List.append_nil], rfl⟩
      | cons line rest =>
        cases hmid
        exact absurd (List.mem_append_right _ List.mem_cons_self) hfront

/-- A call in a function is the call of an instruction of its body, at which the room for the
arguments is reserved. -/
theorem walks_bl (fits : s.layout.Fits) (hp : p.Temporaries)
    (hbody : s.bodyLines p body = .ok lines) (h : .inst (.bl routine) :: tail <:+ s.whole lines) :
    ∃ front inst back first done todo, body = front ++ inst :: back ∧
      s.bodyLines p front = .ok first ∧
      s.instLines p inst = .ok (done ++ .inst (.bl routine) :: todo) ∧
      s.whole lines = heading s.function s.layout.frame ++ first ++ done
        ++ .inst (.bl routine) :: tail ∧
      ∃ n ≤ 8, inst.callee s.settings.runtime = some (routine, n) ∧
        Walks s.layout (s.exits body) (s.layout.calling n) (.inst (.bl routine) :: tail) := by
  obtain ⟨before, hwhole⟩ := h
  have hheading : Line.inst (.bl routine) ∉ heading s.function s.layout.frame := by
    simp [heading, Frame.prologue]
  have hending : Line.inst (.bl routine) ∉ ending s s.layout.frame := by
    simp [ending, Frame.epilogue]
  obtain ⟨before, last, rfl, rfl, rfl⟩ := split_of_notMem hwhole.symm hheading hending
  obtain ⟨front, inst, back, first, done, todo, rfl, hfront, hinst, rfl⟩ := exists_of_bl hbody
  -- the lines after the call are the rest of the instruction's and those of the later instructions
  obtain ⟨first', rest, hfirst', hrest, hsplit⟩ := bodyLines_append_ok hbody
  obtain rfl : first = first' := Except.ok.inj (hfront.symm.trans hfirst')
  obtain ⟨ofInst, later, hofInst, hlater, rfl⟩ := bodyLines_cons_ok.mp hrest
  obtain rfl : done ++ .inst (.bl routine) :: todo = ofInst :=
    Except.ok.inj (hinst.symm.trans hofInst)
  obtain rfl : last = todo ++ later := by simpa using hsplit
  have hcallees : ∀ name n, inst.callee s.settings.runtime = some (name, n) →
      (s.exits (front ++ inst :: back)).callee name n := fun name n hcallee =>
    ⟨inst, List.mem_append_right _ List.mem_cons_self, hcallee⟩
  have hback : back ⊆ front ++ inst :: back := fun _ hmem =>
    List.mem_append_right _ (List.mem_cons_of_mem _ hmem)
  obtain ⟨n, hn, hcallee, hwalks⟩ :=
    walks_call fits hp hinst hcallees (walks_last fits hp hlater hback)
  rw [← List.append_assoc] at hwalks
  rw [← List.append_assoc] at hwhole
  exact ⟨front, inst, back, first, done, todo, rfl, hfront, hinst, hwhole.symm, n, hn, hcallee,
    hwalks⟩

theorem onPath_start {kept : Set Reg} {entry : List Line} {t : A64.State} (fits : s.layout.Fits)
    (h : s.Lowers body lines) (hentry : Line.after s.function (s.whole lines) = some entry) :
    OnPath s.layout (s.exits body) kept (t.reg .sp) (s.whole lines) (entry, t) := by
  refine ⟨after_suffix hentry, .entry, ?_, ⟨(addr_zero _).symm, nofun⟩, dvd_zero 16⟩
  have hwhole := after_whole_function s lines []
  rw [List.append_nil, hentry] at hwhole
  cases hwhole
  exact walks_function fits h []

/-- What is promised at a line of a function with this body, for the stack pointer on entry. -/
structure Site.KeepsStack (s : Site) (body : List Instruction) (code : List Line) (kept : Set Reg)
    (entry : Word) (rest : List Line) (t : A64.State) : Prop where
  aligned : (t.reg .sp).toNat % 16 = 0
  frame : ∀ done, code = heading s.function s.layout.frame ++ done ++ rest →
    .inst (.ldp .fp .lr .sp) ∈ rest → .fp ∈ kept → t.reg .fp = addr entry (-16)
  boundary : ∀ front back first, body = front ++ back →
    s.bodyLines .temporaries front = .ok first →
    code = heading s.function s.layout.frame ++ first ++ rest →
    t.reg .sp = addr entry (-(16 + s.layout.frame.localsSize.toNat)) ∧
      (.fp ∈ kept → t.reg .sp = addr (t.reg .fp) (-s.layout.frame.localsSize.toNat))
  call : ∀ routine tail, rest = .inst (.bl routine) :: tail →
    ∃ front inst back first done todo, body = front ++ inst :: back ∧
      s.bodyLines .temporaries front = .ok first ∧
      s.instLines .temporaries inst = .ok (done ++ .inst (.bl routine) :: todo) ∧
      code = heading s.function s.layout.frame ++ first ++ done ++ rest ∧
      t.reg .sp = addr entry (-(16 + s.layout.frame.localsSize.toNat + inst.homeArea)) ∧
      (.fp ∈ kept → t.reg .sp
        = addr (t.reg .fp) (-(s.layout.frame.localsSize.toNat + inst.homeArea)))
  returned : ∀ tail, rest = .inst .ret :: tail → t.reg .sp = entry

/-- In the frame, the distances from the frame pointer are those from the stack pointer on entry,
less the frame record. -/
theorem addr_of_frame {entry sp fp : Word} {d : ℤ} (hsp : sp = addr entry (-(16 + d)))
    (hfp : fp = addr entry (-16)) : sp = addr fp (-d) := by
  rw [hsp, hfp, addr_addr]
  congr 1
  ring

theorem keepsStack_of_onPath {kept : Set Reg} {entry : Word} {rest : List Line} {t : A64.State}
    (fits : s.layout.Fits) (hbody : s.bodyLines .temporaries body = .ok lines)
    (hentry : entry.toNat % 16 = 0)
    (h : OnPath s.layout (s.exits body) kept entry (s.whole lines) (rest, t)) :
    s.KeepsStack body (s.whole lines) kept entry rest t := by
  have hp := Pool.temporaries_free
  obtain ⟨q, hwalks, hsees, haligned⟩ := h.spot
  have hframe : ∀ done, s.whole lines = heading s.function s.layout.frame ++ done ++ rest →
      .inst (.ldp .fp .lr .sp) ∈ rest → .fp ∈ kept → t.reg .fp = addr entry (-16) :=
    fun done hcode hclose hkept => hsees.fp hkept
      (inside_of_opened (lowers_of_bodyLines hp hbody) hcode hclose hwalks)
  refine ⟨?_, hframe, ?_, ?_, ?_⟩
  · rw [hsees.sp]
    exact addr_aligned hentry haligned
  · rintro front back first rfl hfront hcode
    have hsp := h.sp_eq (walks_boundary fits hp hbody hfront hcode)
    refine ⟨hsp, fun hkept => addr_of_frame hsp (hframe first hcode ?_ hkept)⟩
    obtain ⟨last, -, rfl⟩ := rest_of_boundary hbody hfront hcode
    simp [ending, Frame.epilogue]
  · rintro routine tail rfl
    obtain ⟨front, inst, back, first, done, todo, hsplit, hfront, hinst, hcode, n, hn, hcallee,
      hcall⟩ := walks_bl fits hp hbody h.suffix
    have hsp := h.sp_eq hcall
    rw [Layout.calling, Spot.at, homeAreaSize_of_callee hcallee hn] at hsp
    obtain ⟨_, -, -, rfl, -⟩ := hwalks.of_bl
    refine ⟨front, inst, back, first, done, todo, hsplit, hfront, hinst, hcode, hsp, fun hkept => ?_⟩
    exact addr_of_frame (by rw [hsp, add_assoc]) (hsees.fp hkept rfl)
  · rintro tail rfl
    obtain rfl := hwalks.of_ret
    exact hsees.sp.trans (addr_zero entry)

end Function

/-- On every path through a lowered function, whichever way its branches go and whatever the
routines do that it calls, as long as they keep the stack pointer: the stack pointer stays aligned,
is as deep as the frame between two instructions of the body, and deeper by the arguments at a call,
and is back at the return. Where routines keep the frame pointer too, it points to the frame. -/
theorem lowerFragment_keeps_stack {settings : Settings} {globals : List String} {frag : Fragment}
    {layout : Layout} {code entry rest : List Line} {after : Pool} {env : Env} {kept : Set Reg}
    {s t : A64.State} (hlayout : Layout.ofFragment frag = .ok layout)
    (hcode : lowerFragment settings globals frag .temporaries = (.ok code, after))
    (hself : ∀ inst ∈ frag.body, inst.target ≠ some frag.label) (hkept : .sp ∈ kept)
    (hsp : (s.reg .sp).toNat % 16 = 0) (hentry : Line.after frag.label code = some entry)
    (hpath : Relation.ReflTransGen (Follows env kept code) (entry, s) (rest, t)) :
    (layout.site settings globals frag).KeepsStack frag.body code kept (s.reg .sp) rest t := by
  obtain ⟨lines, hbody, rfl⟩ := bodyLines_of_lowerFragment hlayout hcode
  have fits : (layout.site settings globals frag).layout.Fits := Layout.fits_of_ofFragment hlayout
  have hlowers := lowers_of_bodyLines Pool.temporaries_free hbody
  refine keepsStack_of_onPath fits hbody hsp
    (onPath_run hkept (fun i => dvd_drop_of_whole fits hlowers) ?_
      (onPath_start fits hlowers hentry) hpath)
  intro name target hname htarget
  refine walks_after fits hlowers ?_ htarget
  rcases hname with rfl | ⟨inst, hinst, hname⟩
  · exact returnLabel_ne _
  · rintro rfl
    exact hself inst hinst hname

def passOnCode : List Inst :=
  [.subImm .sp .sp 16, .stp .fp .lr .sp, .mov .fp .sp, .subImm .sp .sp 16, .str (.x 0) .fp 16,
    .subImm .sp .sp 16, .ldr (.x 0) .fp 16]

/-- At the call of `passOn`, the stack pointer is below the frame and the room for one argument. -/
theorem keeps_stack_passOn :
    ∃ code after entry tail t,
      lowerFragment .default [] passOn .temporaries = (.ok code, after) ∧
      Line.after "pass_on" code = some entry ∧
      Relation.ReflTransGen (Follows incEnv {.sp, .fp} code) (entry, passOnEntry)
        (.inst (.bl "inc") :: tail, t) ∧
      (passOnLayout.site .default [] passOn).KeepsStack passOn.body code {.sp, .fp} 4096
        (.inst (.bl "inc") :: tail) t := by
  have hlower : ∃ code after,
      lowerFragment .default [] passOn .temporaries = (.ok code, after) ∧
      ∃ tail, Line.after "pass_on" code
        = some (passOnCode.map .inst ++ .inst (.bl "inc") :: tail) := ⟨_, _, rfl, _, rfl⟩
  obtain ⟨code, after, hcode, tail, hentry⟩ := hlower
  have hkept : ∀ (routine : String) (s : A64.State), ∀ r ∈ ({.sp, .fp} : Set Reg),
      (incEnv.routine routine s).reg r = s.reg r := by
    intro routine s r hr
    obtain ⟨-, hsp, hkept, -⟩ := incCode_spec ⟨fun _ => 0, fun _ => id⟩ s
    rcases hr with rfl | rfl
    · exact hsp
    · exact hkept _ (Reg.among_subset (by omega) (by omega) Reg.fp_mem)
  have hpath : Relation.ReflTransGen (Follows incEnv {.sp, .fp} code)
      (passOnCode.map .inst ++ .inst (.bl "inc") :: tail, passOnEntry)
      (.inst (.bl "inc") :: tail, execs incEnv passOnCode passOnEntry) :=
    follows_of_reaches hkept (reaches_execs (by decide) _ _)
  exact ⟨code, after, _, tail, _, hcode, hentry, hpath,
    lowerFragment_keeps_stack passOnLayout_eq hcode (by decide) (.inl rfl) (by decide) hentry hpath⟩

end A64Lowering
