import Mathlib
import A64Lowering.Proofs.Lowering.InstructionMeaning
import A64Lowering.Proofs.Lowering.Labels

/-! # A lowered fragment behaves as the fragment

* `Layout.Starts`: a machine at the label of a function.
* `Tracks`: the machine at the lines for the rest of the body. `tracks_step`, `tracks_run`: every run
  of the body is followed; `tracks_end`: its end leads to the epilogue. -/
namespace A64Lowering
set_option autoImplicit false

open A64 Ir

/-! ## Entry -/

/-- The states at the label of a function: parameters come in their registers, and a slot holds what
the memory held where the frame will be. -/
structure Layout.Starts (l : Layout) (w : World) (σ : Ir.State) (s : A64.State) : Prop where
  slot : ∀ r off, l.home? r = some (.slot off) →
    s.mem.read (offsetAddr (addr (s.reg .sp) (-16)) off) = σ.val r
  params : l.InRegs σ s
  data : ∀ a, w.data a = true → s.mem a = σ.mem a
  log : w.Sees σ.log s.log

/-- What the fragment sees of a machine on entry: a parameter that is listed more than once has the
word of its first position. -/
def Layout.start (l : Layout) (w : World) (s : A64.State) : Ir.State where
  val r := match l.home? r with
    | some (.slot off) => s.mem.read (offsetAddr (addr (s.reg .sp) (-16)) off)
    | some (.param i) => s.reg (argReg i)
    | none => 0
  mem := s.mem
  log := s.log.filter (Event.visible w.data)

theorem Layout.starts_start (l : Layout) (w : World) (s : A64.State) :
    l.Starts w (l.start w s) s := by
  refine ⟨fun r off hr => ?_, fun r i hr => ?_, fun a _ => rfl, ?_⟩
  · simp only [Layout.start, hr]
  · simp only [Layout.start, hr]
  · refine List.forall₂_same.mpr fun e _ => ?_
    cases e with
    | call routine args result => exact .call (List.prefix_refl args)
    | write address value => exact .write address value

namespace Opened
variable {l : Layout} {w : World} {σ : Ir.State} {s t : A64.State}

theorem related (h : Opened l.frame s t) (hp : l.Placed (addr (s.reg .sp) (-16)) w)
    (hstart : l.Starts w σ s) : l.Related (addr (s.reg .sp) (-16)) w σ t := by
  set fp := addr (s.reg .sp) (-16) with hfp
  have hrecord : addr (s.reg .sp) (-8) = addr fp 8 := by
    rw [hfp, addr_addr, show (-16 + 8 : ℤ) = -8 from rfl]
  have hzero : l.Inside 0 := Layout.inside_record le_rfl (by omega)
  have height : l.Inside 8 := Layout.inside_record (by omega) le_rfl
  have hmem : t.mem = (s.mem.write (addr fp 0) (s.reg .fp)).write (addr fp 8) (s.reg .lr) := by
    rw [h.mem, hrecord, addr_zero]
  refine ⟨⟨h.pointer, fun r off hr => ?_, fun a ha => ?_, ?_⟩, fun r i hr => ?_, h.sp⟩
  · have hoff := (Layout.slot_bounds hp.fits hr).2
    rw [hmem, offsetAddr,
      Mem.read_write_of_apart (hp.apart_cells (hp.inside_slot hr) height (by omega)),
      Mem.read_write_of_apart (hp.apart_cells (hp.inside_slot hr) hzero (by omega))]
    exact hstart.slot r off hr
  · rw [hmem, hp.data_write height ha, hp.data_write hzero ha, hstart.data a ha]
  · rw [h.log, hrecord]
    refine (hstart.log.append_hidden ?_).append_hidden (hp.apart _ height.addr_mem_area)
    have hself : addr fp 0 ∈ l.area fp := hzero.addr_mem_area
    rw [addr_zero] at hself
    exact hp.apart fp hself
  · have hne : argReg i ≠ .fp := Reg.ne_of_mem_among (Reg.argReg_mem i) Reg.fp_mem (by omega)
    have hne' : argReg i ≠ .sp := fun e => Reg.sp_notMem_among 0 7 (e ▸ Reg.argReg_mem i)
    rw [h.reg _ hne hne', hstart.params r i hr]

end Opened

/-! ## The body -/

/-- Labels lead where they should: those of the body to the rest of the body, the return label to
the epilogue. -/
structure Resolves (site : Site) (body : List Instruction) (code : List Line) : Prop where
  body : ∀ name rest, Instruction.after name body = some rest →
    ∃ lines, site.Lowers rest lines ∧
      Line.after name code = some (lines ++ ending site site.layout.frame)
  ret : Line.after site.returnLabel code = (ending site site.layout.frame).tail

/-- The machine stands at the lines for the rest of the body. -/
structure Tracks (site : Site) (fp : Word) (w : World) (body : List Instruction)
    (start : A64.State) (c : List Instruction × Ir.State) (d : List Line × A64.State) : Prop where
  rest : c.1 ⊆ body
  lines : ∃ lines, site.Lowers c.1 lines ∧ d.1 = lines ++ ending site site.layout.frame
  related : site.layout.Related fp w c.2 d.2
  keeps : Keeps fp start d.2

section Body
variable {site : Site} {fp : Word} {w : World} {body : List Instruction} {start : A64.State}
  {env : Env} {code : List Line} {c c' : List Instruction × Ir.State} {d : List Line × A64.State}

theorem step_condBranch {rest : List Line} {s : A64.State} {a : Reg} {onTrue : Bool}
    {name : String} :
    A64.step env code (.inst (if onTrue then .cbnz a name else .cbz a name) :: rest, s)
      = (if (s.get a != 0) = onTrue then Line.after name code else some rest).map (·, s) := by
  cases onTrue <;> by_cases hzero : s.get a = 0 <;> simp [A64.step, A64.next, exec, hzero]

theorem tracks_condBranch {value : VReg} {onTrue : Bool} {name : String} {a : Reg}
    {load : List Inst} {rest rest' : List Instruction} {restLines : List Line} {σ : Ir.State}
    {s : A64.State} (hp : site.layout.Placed fp w) (hresolves : Resolves site body code)
    (ha : a.Temporary) (hcode : site.load a value = .ok load)
    (hlowers : site.Lowers rest restLines) (hsubset : rest ⊆ body)
    (hrelated : site.layout.Related fp w σ s) (hkeeps : Keeps fp start s)
    (hnext : Ir.next body rest σ (.condBranch value onTrue name) = some rest') :
    ∃ d', A64.Reaches env code ((load ++ [if onTrue then Inst.cbnz a name else .cbz a name]).map .inst
        ++ (restLines ++ ending site site.layout.frame), s) d' ∧
      Tracks site fp w body start (rest', σ) d' := by
  obtain ⟨hc, hval⟩ := Site.one_operand env hp hrelated ha (.reg hcode)
  have hload : ∀ i ∈ load, i.falls = true := by
    intro i hi
    exact (plain_load hp.fits (temporary_encodable ha) hcode i hi).1
  have hkeeps' := hkeeps.trans (Keeps.of_changes (hc.mono (Reg.among_subset_volatile le_rfl)))
  have hget : (execs env load s).get a = σ.val value := (get_of_mem ha).trans hval
  have hreach : A64.Reaches env code ((load ++ [if onTrue then Inst.cbnz a name else .cbz a name]).map
      .inst ++ (restLines ++ ending site site.layout.frame), s)
      (.inst (if onTrue then .cbnz a name else .cbz a name)
        :: (restLines ++ ending site site.layout.frame), execs env load s) := by
    rw [List.map_append, List.append_assoc]
    exact reaches_execs hload _ s
  by_cases htaken : (σ.val value != 0) = onTrue
  · have hafter : Instruction.after name body = some rest' := by
      rw [← hnext, Ir.next, if_pos htaken]
    obtain ⟨target, htarget, hline⟩ := hresolves.body name rest' hafter
    refine ⟨(target ++ ending site site.layout.frame, execs env load s),
      hreach.trans (.of_step ?_), (mem_of_after hafter).2, ⟨target, htarget, rfl⟩,
      hrelated.of_changes hc, hkeeps'⟩
    rw [step_condBranch, hget, if_pos htaken, hline, Option.map_some]
  · have hfall : rest' = rest := by
      rw [Ir.next, if_neg htaken] at hnext
      exact (Option.some.inj hnext).symm
    subst hfall
    refine ⟨(restLines ++ ending site site.layout.frame, execs env load s),
      hreach.trans (.of_step ?_), hsubset, ⟨restLines, hlowers, rfl⟩, hrelated.of_changes hc,
      hkeeps'⟩
    rw [step_condBranch, hget, if_neg htaken, Option.map_some]

theorem tracks_step (hp : site.layout.Placed fp w) (hresolves : Resolves site body code)
    (hsymbol : ∀ name, env.symbol name = w.symbol name)
    (hruntime : w.runtime = site.settings.runtime)
    (hindex : ∀ inst ∈ body, ∀ index, inst.index? = some index → index.toNat < 2 ^ 28)
    (hans : ∀ inst rest, c.1 = inst :: rest → ∀ routine args,
      inst.call? w c.2 = some (routine, args) →
        Answers env site.layout fp w c.2 inst.homeArea routine args)
    (h : Tracks site fp w body start c d) (hstep : Ir.step w body c = some c') :
    ∃ d', A64.Reaches env code d d' ∧ Tracks site fp w body start c' d' := by
  obtain ⟨rest, σ⟩ := c
  obtain ⟨lines, s⟩ := d
  obtain ⟨hrest, ⟨front, hlowers, rfl⟩, hrelated, hkeeps⟩ := h
  cases hlowers with
  | nil => cases hstep
  | @cons inst rest lines restLines hprints hlowers =>
    obtain ⟨rest', hnext, hmap⟩ := Option.bind_eq_some_iff.mp hstep
    obtain ⟨σ', hrun, rfl⟩ := Option.map_eq_some_iff.mp hmap
    have hskip := site.reaches_annotation env code
      (lines ++ (restLines ++ ending site site.layout.frame)) inst s
    simp only [List.append_assoc]
    have hsubset : rest ⊆ body := fun i hi => hrest (List.mem_cons_of_mem _ hi)
    cases hprints with
    | label name =>
      cases hnext
      cases hrun
      exact ⟨_, hskip.trans (.of_step rfl), hsubset, ⟨restLines, hlowers, rfl⟩, hrelated, hkeeps⟩
    | @code _ is hemits =>
      by_cases hsteers : inst.steers = false
      · have hfall : rest' = rest := by
          cases inst with
          | label _ | branch _ | condBranch _ _ _ | ret _ => exact absurd hsteers Bool.noConfusion
          | _ =>
            cases hnext
            rfl
        subst hfall
        obtain ⟨hrelated', hkeeps'⟩ := Site.related_of_emits hp hsymbol hruntime
          hrelated hemits hsteers (hindex inst (hrest List.mem_cons_self))
          (hans inst rest' rfl) hrun
        exact ⟨_, hskip.trans (reaches_execs (falls_of_emits hp.fits hemits hsteers) _ s),
          hsubset, ⟨restLines, hlowers, rfl⟩, hrelated', hkeeps.trans hkeeps'⟩
      · cases hemits with
        | branch name =>
          cases hrun
          obtain ⟨target, htarget, hafter⟩ := hresolves.body name rest' hnext
          refine ⟨(target ++ ending site site.layout.frame, s), hskip.trans (.of_step ?_),
            (mem_of_after hnext).2, ⟨target, htarget, rfl⟩, hrelated, hkeeps⟩
          simp only [List.map_cons, List.map_nil, List.singleton_append, A64.step, A64.next, hafter,
            Option.map_some, exec]
        | @condBranch value onTrue name a load ha hcode =>
          cases hrun
          obtain ⟨d', hreach, htracks⟩ := tracks_condBranch hp hresolves ha hcode hlowers hsubset
            hrelated hkeeps hnext
          exact ⟨d', hskip.trans hreach, htracks⟩
        | ret | retValue => cases hnext
        | _ => exact absurd rfl hsteers

theorem tracks_run {σ : Ir.State} (hp : site.layout.Placed fp w)
    (hresolves : Resolves site body code) (hsymbol : ∀ name, env.symbol name = w.symbol name)
    (hruntime : w.runtime = site.settings.runtime)
    (hindex : ∀ inst ∈ body, ∀ index, inst.index? = some index → index.toNat < 2 ^ 28)
    (hans : ∀ inst ∈ body, ∀ rest σ', Ir.Reaches w body (body, σ) (inst :: rest, σ') →
      ∀ routine args, inst.call? w σ' = some (routine, args) →
        Answers env site.layout fp w σ' inst.homeArea routine args)
    (h : Tracks site fp w body start (body, σ) d) (hrun : Ir.Reaches w body (body, σ) c) :
    ∃ d', A64.Reaches env code d d' ∧ Tracks site fp w body start c d' := by
  -- `Tracks` is the invariant; it also keeps the run in the body, whose calls are answered
  induction hrun with
  | refl => exact ⟨d, .refl d, h⟩
  | @tail b c hab hbc ih =>
    obtain ⟨d₁, hreach, htracks⟩ := ih
    obtain ⟨d₂, hreach', htracks'⟩ := tracks_step hp hresolves hsymbol hruntime hindex
      (fun inst rest heq => hans inst (htracks.rest (heq ▸ List.mem_cons_self)) rest b.2
        (by rw [← heq]; exact hab)) htracks hbc
    exact ⟨d₂, hreach.trans hreach', htracks'⟩

variable (env) in
/-- The end of a run leads to the epilogue, with the returned word in the result register. -/
theorem tracks_end {value : Option Word} (hp : site.layout.Placed fp w)
    (hresolves : Resolves site body code) (h : Tracks site fp w body start c d)
    (hends : Ends c.2 c.1 value) :
    ∃ t, A64.Reaches env code d
        (site.layout.frame.epilogue.map .inst
          ++ [.directive (".size " ++ site.function ++ ", (. - " ++ site.function ++ ")")], t) ∧
      site.layout.Holds fp w c.2 t ∧ Keeps fp start t ∧
      t.reg .sp = addr fp (-site.layout.frame.localsSize.toNat) ∧
      ∀ v, value = some v → t.reg resultReg = v := by
  obtain ⟨rest, σ⟩ := c
  obtain ⟨lines, s⟩ := d
  obtain ⟨-, ⟨front, hlowers, rfl⟩, hrelated, hkeeps⟩ := h
  have hret := hresolves.ret
  cases hends with
  | behind =>
    cases hlowers
    exact ⟨s, .of_step rfl, hrelated.toHolds, hkeeps, hrelated.sp, fun v hv => absurd hv nofun⟩
  | ret value rest =>
    cases hlowers with
    | @cons _ _ lines restLines hprints hlowers =>
      have hskip := site.reaches_annotation env code
        (lines ++ (restLines ++ ending site site.layout.frame)) (.ret value) s
      simp only [List.append_assoc]
      cases hprints with
      | code hemits =>
        cases hemits with
        | ret =>
          refine ⟨s, hskip.trans (.of_step ?_), hrelated.toHolds, hkeeps, hrelated.sp,
            fun v hv => absurd hv nofun⟩
          simp only [List.map_cons, List.map_nil, List.singleton_append, A64.step, A64.next, hret]
          rfl
        | @retValue r load hcode =>
          obtain ⟨hc, hval⟩ := Site.load_spec env (Reg.among 0 17) hp
            hrelated.toHolds hrelated.params hcode (Reg.x_mem_among.mpr ⟨by decide, by decide⟩)
            (Reg.among_subset (by omega) (by omega) Reg.slotScratch_mem)
          have hload : ∀ i ∈ load, i.falls = true := fun i hi =>
            (plain_load hp.fits (argReg_encodable 0) hcode i hi).1
          have hvol := hc.mono (Reg.among_subset_volatile le_rfl)
          have hreach := hskip.trans (by
            rw [List.map_append, List.append_assoc]
            exact reaches_execs hload _ s)
          refine ⟨execs env load s, hreach.trans (.of_step ?_), hrelated.toHolds.of_changes hvol,
            hkeeps.trans (Keeps.of_changes hvol), ?_, fun v hv => ?_⟩
          · simp only [List.map_cons, List.map_nil, List.singleton_append, A64.step, A64.next,
              hret]
            rfl
          · rw [hc.reg _ (Reg.sp_notMem_among _ _), hrelated.sp]
          · cases hv
            exact hval

end Body

/-! ## Fragments -/

theorem resolves_of_lowers {site : Site} {body : List Instruction} {lines : List Line}
    (h : site.Lowers body lines)
    (hlabels : ∀ name, .label name ∈ body → name ≠ site.function ∧ name ≠ site.returnLabel) :
    Resolves site body
      (heading site.function site.layout.frame ++ lines ++ ending site site.layout.frame) := by
  have hheading : ∀ name, name ≠ site.function →
      Line.label name ∉ heading site.function site.layout.frame := by
    intro name hne
    simp [heading, hne]
  constructor
  · intro name rest hafter
    have hne := (hlabels name (mem_of_after hafter).1).1
    rw [List.append_assoc, after_append_of_not_mem _ (hheading name hne)]
    exact after_of_lowers h _ hafter
  · have hbody : Line.label site.returnLabel ∉ lines := fun hmem =>
      (hlabels _ (label_mem_of_lowers h hmem)).2 rfl
    rw [List.append_assoc, after_append_of_not_mem _ (hheading _ (returnLabel_ne site)),
      after_append_of_not_mem _ hbody]
    simp [ending, Line.after]

/-- Every run of a fragment that ends, at a return or behind its last instruction, is the run of the
lowered function from its label to its return: with the same calls and the same writes to data, the
returned word in the result register, and the stack pointer, the frame pointer, the link register
and the callee-saved registers as on entry. -/
theorem lowerFragment_preserves_meaning {settings : Settings} {globals : List String}
    {frag : Fragment} {layout : Layout} {code : List Line} {after : Pool} {env : Env} {w : World}
    {s : A64.State} {σ τ : Ir.State} {value : Option Word}
    (hcode : lowerFragment settings globals frag .temporaries = (.ok code, after))
    (hlayout : Layout.ofFragment frag = .ok layout)
    (hlabels : ∀ name, .label name ∈ frag.body →
      name ≠ frag.label ∧ name ≠ (layout.site settings globals frag).returnLabel)
    (hindex : ∀ inst ∈ frag.body, ∀ index, inst.index? = some index → index.toNat < 2 ^ 28)
    (hsymbol : ∀ name, env.symbol name = w.symbol name) (hruntime : w.runtime = settings.runtime)
    (hdata : ∀ b ∈ layout.area (addr (s.reg .sp) (-16)), w.data b = false)
    (hans : ∀ inst ∈ frag.body, ∀ rest σ',
      Ir.Reaches w frag.body (frag.body, σ) (inst :: rest, σ') →
        ∀ routine args, inst.call? w σ' = some (routine, args) →
          Answers env layout (addr (s.reg .sp) (-16)) w σ' inst.homeArea routine args)
    (hstart : layout.Starts w σ s) (hrun : Finishes w frag.body σ value τ) :
    ∃ entry rest t, Line.after frag.label code = some entry ∧
      A64.Reaches env code (entry, s) (.inst .ret :: rest, t) ∧
      (∀ a, w.data a = true → t.mem a = τ.mem a) ∧ w.Sees τ.log t.log ∧
      (∀ v, value = some v → t.reg resultReg = v) ∧ t.reg .sp = s.reg .sp ∧
      t.reg .lr = s.reg .lr ∧ ∀ r ∈ Reg.among 19 29, t.reg r = s.reg r := by
  obtain ⟨layout', lines, hlayout', hlowers, rfl, -⟩ := lowerFragment_ok Pool.temporaries_free hcode
  obtain rfl : layout = layout' := by
    rw [hlayout] at hlayout'
    exact Except.ok.inj hlayout'
  set site := layout.site settings globals frag with hsite
  set fp := addr (s.reg .sp) (-16) with hfp
  have hp : site.layout.Placed fp w := ⟨Layout.fits_of_ofFragment hlayout, hdata⟩
  have hresolves := resolves_of_lowers hlowers hlabels
  have hopened := opened_prologue env layout.frame s
  set s₁ := execs env layout.frame.prologue s with hs₁
  have htracks : Tracks site fp w frag.body s₁ (frag.body, σ)
      (lines ++ ending site site.layout.frame, s₁) :=
    ⟨List.Subset.refl _, ⟨lines, hlowers, rfl⟩, hopened.related hp hstart, Keeps.refl fp s₁⟩
  obtain ⟨body, hreaches, hends⟩ := hrun
  obtain ⟨d, hreach₂, htracks₂⟩ :=
    tracks_run hp hresolves hsymbol hruntime hindex hans htracks hreaches
  obtain ⟨s₃, hreach₃, hholds₃, hkeeps₃, hsp₃, hvalue₃⟩ :=
    tracks_end env hp hresolves htracks₂ hends
  have hclosed := hopened.closed (hsp₃.trans hopened.sp.symm) hkeeps₃.record env
  have hreach₄ := reaches_epilogue env (heading frag.label layout.frame ++ lines
    ++ ending site layout.frame) [.directive (".size " ++ site.function ++ ", (. - " ++ site.function
    ++ ")")] layout.frame s₃
  refine ⟨layout.frame.prologue.map .inst ++ (lines ++ ending site site.layout.frame),
    [.directive (".size " ++ site.function ++ ", (. - " ++ site.function ++ ")")],
    execs env layout.frame.epilogue s₃, ?_, ?_, fun a ha => ?_, ?_, fun v hv => ?_, hclosed.sp,
    hclosed.lr, hclosed.keeps_saved hopened hkeeps₃.reg⟩
  · rw [heading, List.append_assoc, List.append_assoc]
    simp only [List.cons_append, List.nil_append, Line.after, if_true]
    rfl
  · exact (reaches_prologue env _ _ layout.frame s).trans (hreach₂.trans (hreach₃.trans hreach₄))
  · rw [hclosed.mem, hholds₃.data a ha]
  · rw [hclosed.log]
    exact hholds₃.log
  · rw [hclosed.reg _ (by decide) (by decide) (by decide), hvalue₃ v hv]

/-- A function that returns the word after its argument. -/
def inc : Fragment :=
  ⟨"inc", [⟨0⟩], [.binary .add ⟨1⟩ ⟨0⟩ (.imm 1), .ret (some ⟨1⟩)]⟩

/-- What `incCode` does is what the lowered function does, from its label to its return. -/
theorem reaches_inc (env : Env) (s : A64.State) :
    ∃ code after entry rest, lowerFragment .default [] inc .temporaries = (.ok code, after) ∧
      Line.after "inc" code = some entry ∧
      A64.Reaches env code (entry, s) (.inst .ret :: rest, execs env incCode s) := by
  have hlower : ∃ code after rest, lowerFragment .default [] inc .temporaries = (.ok code, after) ∧
      Line.after "inc" code = some ((incFrame.prologue ++ incWork).map .inst
        ++ .inst (.b ".Linc_ret") :: .label ".Linc_ret" :: (incFrame.epilogue.map .inst ++ rest)) ∧
      Line.after ".Linc_ret" code = some (incFrame.epilogue.map .inst ++ rest) :=
    ⟨_, _, _, rfl, rfl, rfl⟩
  obtain ⟨code, after, rest, hcode, hentry, hret⟩ := hlower
  refine ⟨code, after, _, rest, hcode, hentry, (reaches_execs (by decide) _ s).trans ?_⟩
  rw [incCode, execs_append env s _ incFrame.epilogue]
  refine .head ?_ (reaches_epilogue env code rest incFrame _)
  rw [A64.step, A64.next, hret, Option.map_some, exec]

/-- A machine at the label of `passOn`, with the argument 41. -/
def passOnEntry : A64.State :=
  ⟨fun r => if r = .x 0 then 41 else if r = .sp then 4096 else 7, ⟨false, false, false, false⟩,
    fun _ => 0, []⟩

theorem lower_passOn :
    ∃ code after entry rest t,
      lowerFragment .default [] passOn .temporaries = (.ok code, after) ∧
      Line.after "pass_on" code = some entry ∧
      A64.Reaches incEnv code (entry, passOnEntry) (.inst .ret :: rest, t) ∧
      t.reg resultReg = 42 ∧ t.reg .sp = 4096 ∧ incWorld.Sees [.call "inc" [41] 42] t.log := by
  have hcode : ∃ code after,
      lowerFragment .default [] passOn .temporaries = (.ok code, after) := ⟨_, _, rfl⟩
  obtain ⟨code, after, hcode⟩ := hcode
  have hfp : addr (passOnEntry.reg .sp) (-16) = 4080 := by decide
  set σ := passOnLayout.start incWorld passOnEntry with hσ
  have hrun : Finishes incWorld passOn.body σ (some 42)
      ⟨Function.update σ.val ⟨1⟩ 42, fun _ => 0, [.call "inc" [41] 42]⟩ :=
    ⟨[.ret (some ⟨1⟩)], .single rfl, .ret (some ⟨1⟩) []⟩
  have hans : ∀ inst ∈ passOn.body, ∀ rest σ',
      Ir.Reaches incWorld passOn.body (passOn.body, σ) (inst :: rest, σ') →
        ∀ routine args, inst.call? incWorld σ' = some (routine, args) →
          Answers incEnv passOnLayout (addr (passOnEntry.reg .sp) (-16)) incWorld σ' inst.homeArea
            routine args := by
    intro inst hinst rest σ' _ routine args hcall
    rw [hfp]
    rcases List.mem_pair.mp hinst with rfl | rfl
    · cases hcall
      exact answers_inc _ _ _
    · exact absurd hcall nofun
  obtain ⟨entry, rest, t, hentry, hreaches, -, hlog, hvalue, hsp, -, -⟩ :=
    lowerFragment_preserves_meaning hcode passOnLayout_eq
      (by
        intro name hname
        rcases List.mem_pair.mp hname with h | h <;> cases h)
      (by
        intro inst hinst index hindex
        rcases List.mem_pair.mp hinst with rfl | rfl <;> cases hindex)
      (fun _ => rfl) rfl (fun b hb => data_notMem_passOn (hfp ▸ hb)) hans
      (passOnLayout.starts_start incWorld passOnEntry) hrun
  exact ⟨code, after, entry, rest, t, hcode, hentry, hreaches, hvalue 42 rfl, hsp, hlog⟩

end A64Lowering
