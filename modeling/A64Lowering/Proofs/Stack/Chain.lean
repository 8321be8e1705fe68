import Mathlib
import A64Lowering.Proofs.Stack.Activation
import A64Lowering.Proofs.Stack.Link

/-! # Chains of activations

* `Activation.Waits`: a caller at its call, with room for the arguments between its frame and the
  callee's.
* `Suspended`: all callers of an activation wait. Their areas lie one above the other.
* `Config.Sound`: the running activation walks, and its callers are suspended. `sound_of_starts`,
  `sound_step`, `sound_run`: every configuration that can be reached is sound. -/
namespace A64Lowering
set_option autoImplicit false

open A64 Ir

/-! ## Callers -/

namespace Activation

/-- The ways out of the function. -/
def exits (a : Activation) (settings : Settings) (globals : List String) : Exits :=
  (a.layout.site settings globals a.frag).exits a.frag.body

/-- The function is one of the program, and has stack left. -/
structure Loaded (a : Activation) (program : Program) : Prop where
  frag : a.frag ∈ program.fragments
  layout : Layout.ofFragment a.frag = .ok a.layout
  fits : a.Fits

theorem Loaded.of_rest {a : Activation} {program : Program} (h : a.Loaded program)
    (rest : List Line) : Loaded { a with rest } program :=
  ⟨h.frag, h.layout, h.fits.layout, h.fits.entry_le, h.fits.room⟩

end Activation

/-- The frame pointer on entry to an activation with these callers. -/
def callerPointer (top outer : Word) : List Activation → Word
  | [] => outer
  | caller :: _ => caller.pointer top

section Chain
variable (settings : Settings) (globals : List String) (program : Program) (top outer : Word)

/-- A caller at its call of `callee`, for whose parameters it has reserved the bytes in between. -/
structure Activation.Waits (m : Mem) (a callee : Activation) (callers : List Activation) :
    Prop where
  loaded : a.Loaded program
  call : ∃ n ≤ 8, (a.exits settings globals).callee callee.frag.label n ∧
    callee.layout.params.length ≤ n ∧ callee.entry = a.bottom - (homeAreaSize n).toNat ∧
    Walks a.layout (a.exits settings globals) (a.layout.calling n) a.rest
  record : m.read (a.pointer top) = callerPointer top outer callers

/-- The callers of an activation, innermost first, all wait. -/
inductive Suspended (m : Mem) : Activation → List Activation → Prop where
  | outermost (callee : Activation) : Suspended m callee []
  | call {callee a : Activation} {callers : List Activation}
      (h : a.Waits settings globals program top outer m callee callers)
      (hcallers : Suspended m a callers) : Suspended m callee (a :: callers)

/-- The running activation walks from a spot that holds, and its callers wait. -/
structure Config.Sound (c : Config) : Prop where
  loaded : c.running.Loaded program
  spot : ∃ p, Walks c.running.layout (c.running.exits settings globals) p c.running.rest ∧
    Spot.Holds p top c.running (callerPointer top outer c.callers) c.state
  suspended : Suspended settings globals program top outer c.state.mem c.running c.callers

end Chain

/-! ## Areas -/

section Areas
variable {settings : Settings} {globals : List String} {program : Program} {top outer : Word}
  {m m' : Mem} {a callee : Activation} {callers : List Activation}

theorem le_homeAreaSize {n : ℕ} (h : n ≤ 8) : 8 * n ≤ (homeAreaSize n).toNat := by
  revert n
  decide

theorem Activation.Waits.ceiling_le
    (h : a.Waits settings globals program top outer m callee callers) :
    callee.ceiling ≤ a.bottom := by
  obtain ⟨n, hn, -, hparams, hentry, -⟩ := h.call
  have hhome := le_homeAreaSize hn
  rw [ceiling, hentry]
  omega

theorem Activation.bottom_le_ceiling (a : Activation) : a.bottom ≤ a.ceiling := by
  rw [bottom, ceiling]
  omega

theorem Suspended.of_rest (h : Suspended settings globals program top outer m a callers)
    (rest : List Line) :
    Suspended settings globals program top outer m { a with rest } callers := by
  cases h with
  | outermost => exact .outermost _
  | call hwaits hcallers => exact .call ⟨hwaits.loaded, hwaits.call, hwaits.record⟩ hcallers

theorem Suspended.loaded (h : Suspended settings globals program top outer m callee callers) :
    ∀ live ∈ callers, live.Loaded program := by
  induction h with
  | outermost => exact fun _ hlive => absurd hlive List.not_mem_nil
  | call hwaits _ ih =>
    intro live hlive
    rcases List.mem_cons.mp hlive with rfl | hlive
    · exact hwaits.loaded
    · exact ih live hlive

theorem Suspended.ceiling_le (h : Suspended settings globals program top outer m callee callers) :
    ∀ live ∈ callers, callee.ceiling ≤ live.bottom := by
  -- each caller's frame lies above the callee that it has reserved room for
  induction h with
  | outermost => exact fun _ hlive => absurd hlive List.not_mem_nil
  | @call callee a callers hwaits _ ih =>
    intro live hlive
    have hcaller := hwaits.ceiling_le
    rcases List.mem_cons.mp hlive with rfl | hlive
    · exact hcaller
    · have habove := ih live hlive
      have hself := a.bottom_le_ceiling
      omega

theorem disjoint_area_of_le (hcallee : callee.Fits) (ha : a.Fits)
    (h : callee.ceiling ≤ a.bottom) : Disjoint (callee.area top) (a.area top) := by
  have hroom := hcallee.room
  have hceiling := ha.ceiling_le
  exact disjoint_area h (by omega)

/-- Live activations share no byte. -/
theorem Suspended.pairwise_disjoint
    (h : Suspended settings globals program top outer m callee callers)
    (hcallee : callee.Loaded program) :
    (callee :: callers).Pairwise fun a b => Disjoint (a.area top) (b.area top) := by
  induction h with
  | outermost => exact List.pairwise_singleton _ _
  | call hwaits hcallers ih =>
    have hsuspended := Suspended.call hwaits hcallers
    refine List.pairwise_cons.mpr ⟨fun live hlive => ?_, ih hwaits.loaded⟩
    exact disjoint_area_of_le hcallee.fits (hsuspended.loaded live hlive).fits
      (hsuspended.ceiling_le live hlive)

theorem Suspended.of_mem (h : Suspended settings globals program top outer m callee callers)
    (hmem : ∀ live ∈ callers, ∀ b ∈ live.area top, m' b = m b) :
    Suspended settings globals program top outer m' callee callers := by
  induction h with
  | outermost => exact .outermost _
  | @call callee a callers hwaits _ ih =>
    refine .call ⟨hwaits.loaded, hwaits.call, ?_⟩
      (ih fun live hlive => hmem live (List.mem_cons_of_mem a hlive))
    rw [← hwaits.record]
    exact Activation.read_pointer (hmem a List.mem_cons_self)

/-- What leaves the stack alone but for the running activation's area keeps its callers'. -/
theorem Suspended.mem_eq {s t : A64.State}
    (h : Suspended settings globals program top outer m a callers) (ha : a.Loaded program)
    (hkeeps : KeepsOthers a top s t) :
    ∀ live ∈ callers, ∀ b ∈ live.area top, t.mem b = s.mem b := by
  intro live hlive b hb
  have hloaded := h.loaded live hlive
  have hdisjoint : Disjoint (a.area top) (live.area top) :=
    disjoint_area_of_le ha.fits hloaded.fits (h.ceiling_le live hlive)
  exact hkeeps b (hloaded.fits.area_subset hb) (Set.disjoint_right.mp hdisjoint hb)

end Areas

/-! ## Steps -/

/-- What steps rely on: functions walk wherever they are entered, and calls pass all arguments. -/
structure Connected (settings : Settings) (globals : List String) (program : Program)
    (text : List Line) : Prop where
  linked : ∀ a : Activation, a.Loaded program →
    Linked text a.layout (a.exits settings globals) a.frag.label
  args : ∀ a callee : Activation, a.Loaded program → callee.Loaded program → ∀ n,
    (a.exits settings globals).callee callee.frag.label n → callee.frag.params.length ≤ n

section Steps
variable {settings : Settings} {globals : List String} {program : Program} {text : List Line}
  {env : Env} {top outer : Word} {a : Activation} {callers : List Activation} {s t : A64.State}

theorem Config.Sound.walks_at {lines : List Line}
    (h : Sound settings globals program top outer ⟨a, callers, s⟩) (hrest : a.rest = lines) :
    ∃ p, Walks a.layout (a.exits settings globals) p lines ∧
      Spot.Holds p top a (callerPointer top outer callers) s := by
  obtain ⟨p, hwalks, hholds⟩ := h.spot
  exact ⟨p, hrest ▸ hwalks, hholds⟩

theorem Config.Sound.goes_on (h : Sound settings globals program top outer ⟨a, callers, s⟩)
    {p : Spot} {rest : List Line} (hwalks : Walks a.layout (a.exits settings globals) p rest)
    (hholds : p.Holds top a (callerPointer top outer callers) t)
    (hmem : ∀ live ∈ callers, ∀ b ∈ live.area top, t.mem b = s.mem b) :
    Sound settings globals program top outer ⟨{ a with rest }, callers, t⟩ :=
  ⟨h.loaded.of_rest rest, ⟨p, hwalks, hholds.of_rest rest⟩,
    (h.suspended.of_mem hmem).of_rest rest⟩

theorem not_moves_bl {l : Layout} {p q : Spot} {routine : String} :
    ¬ Moves l p (.bl routine) q := by
  intro h
  cases h with
  | work hworks => exact hworks
  | distance hi => rcases hi with hi | hi <;> exact absurd hi nofun

theorem Walks.of_bl {l : Layout} {x : Exits} {p : Spot} {routine : String} {rest : List Line}
    (h : Walks l x p (.inst (.bl routine) :: rest)) :
    ∃ n ≤ 8, x.callee routine n ∧ p = l.calling n ∧ Walks l x (l.calling n) rest := by
  cases h with
  | move hmove => exact absurd hmove not_moves_bl
  | branchIf hi => rcases hi with hi | hi <;> exact absurd hi nofun
  | call hn hcallee hrest => exact ⟨_, hn, hcallee, rfl, hrest⟩

theorem Walks.of_ret {l : Layout} {x : Exits} {p : Spot} {rest : List Line}
    (h : Walks l x p (.inst .ret :: rest)) : p = .entry := by
  cases h with
  | move hmove => exact absurd (falls_of_moves hmove) Bool.false_ne_true
  | branchIf hi => rcases hi with hi | hi <;> exact absurd hi nofun
  | ret => rfl

theorem entry_sub_calling (a : Activation) (n : ℕ) :
    a.entry - (a.layout.calling n).depth = a.bottom - (homeAreaSize n).toNat := by
  rw [Layout.calling, Spot.at, Activation.bottom]
  ring

/-- A call enters the callee right below the room for its arguments. -/
theorem entry_eq_of_call {callee : Activation} {n : ℕ} {caller : Word} (hn : n ≤ 8) (ha : a.Fits)
    (hcallee : callee.Fits) (hholds : (a.layout.calling n).Holds top a caller s)
    (hsp : s.reg .sp = addr top callee.entry) :
    callee.entry = a.bottom - (homeAreaSize n).toNat := by
  have hhome := homeAreaSize_le hn
  have hroom := ha.room
  have hentry := ha.entry_le
  have hroom' := hcallee.room
  have hentry' := hcallee.entry_le
  have heq := hholds.sp
  rw [hsp, entry_sub_calling] at heq
  have hbottom : a.bottom ≤ a.entry := by
    rw [Activation.bottom]
    omega
  have hbottom' : callee.bottom ≤ callee.entry := by
    rw [Activation.bottom]
    omega
  -- both distances lie on the stack, so equal addresses are at equal distances
  exact eq_of_addr_eq heq (by omega) (by omega)

theorem sound_of_starts {c : Config} (hconnected : Connected settings globals program text)
    (h : c.Starts program text top) : c.Sound settings globals program top (c.state.reg .fp) := by
  obtain ⟨a, callers, s⟩ := c
  obtain ⟨hfrag, hlayout, hcode, hentry, hfits, hcallers, hsp⟩ := h
  dsimp only at hfrag hlayout hcode hentry hfits hcallers hsp ⊢
  subst hcallers
  have hloaded : a.Loaded program := ⟨hfrag, hlayout, hfits⟩
  refine ⟨hloaded, ⟨.entry, (hconnected.linked a hloaded).entry _ hcode, ?_⟩, .outermost a⟩
  refine .of_entry ?_ rfl
  rw [hsp, hentry, addr_zero]

theorem sound_skip {line : Line} {rest : List Line}
    (h : Config.Sound settings globals program top outer ⟨a, callers, s⟩)
    (hrest : a.rest = line :: rest) (hline : ∀ i, line ≠ .inst i) :
    Config.Sound settings globals program top outer ⟨{ a with rest }, callers, s⟩ := by
  obtain ⟨p, hwalks, hholds⟩ := h.walks_at hrest
  cases hwalks with
  | move | branch | branchIf | call | ret => exact absurd rfl (hline _)
  | label hrest | directive hrest | comment hrest =>
    exact h.goes_on hrest hholds fun _ _ _ _ => rfl

theorem sound_inst {i : Inst} {rest rest' : List Line}
    (hlinked : Linked text a.layout (a.exits settings globals) a.frag.label)
    (h : Config.Sound settings globals program top outer ⟨a, callers, s⟩)
    (hrest : a.rest = .inst i :: rest) (hi : ∀ routine, i ≠ .bl routine)
    (hnext : A64.next text rest s i = some rest')
    (hdata : ∀ cell ∈ i.dataWrites s, ∀ b : Word, (b - cell).toNat < 8 → b ∉ stackArea top) :
    Config.Sound settings globals program top outer
      ⟨{ a with rest := rest' }, callers, exec env s i⟩ := by
  obtain ⟨p, hwalks, hholds⟩ := h.walks_at hrest
  -- a jump arrives at a label of the function, from which its lines walk
  have hjump : ∀ name, (a.exits settings globals).label name → Line.after name text = some rest' →
      Walks a.layout (a.exits settings globals) a.layout.resting rest' := by
    intro name hname hafter
    obtain ⟨code, hcode, hwalks⟩ := hlinked.label name hname
    rw [hafter] at hcode
    cases hcode
    exact hwalks
  cases hwalks with
  | @move _ q _ _ hmove hwalks =>
    rw [next_of_falls (falls_of_moves hmove)] at hnext
    cases hnext
    have hmoved : q.Holds top a (callerPointer top outer callers) (exec env s i) ∧
        KeepsOthers a top s (exec env s i) :=
      holds_of_moves h.loaded.fits hmove hholds hdata
    obtain ⟨hholds', hkeeps⟩ := hmoved
    exact h.goes_on hwalks hholds' (h.suspended.mem_eq h.loaded hkeeps)
  | branch hname => exact h.goes_on (hjump _ hname hnext) hholds fun _ _ _ _ => rfl
  | branchIf hcond hname hwalks =>
    rcases hcond with rfl | rfl
    · rw [A64.next] at hnext
      split at hnext
      · exact h.goes_on (hjump _ hname hnext) hholds fun _ _ _ _ => rfl
      · cases hnext
        exact h.goes_on hwalks hholds fun _ _ _ _ => rfl
    · rw [A64.next] at hnext
      split at hnext
      · cases hnext
        exact h.goes_on hwalks hholds fun _ _ _ _ => rfl
      · exact h.goes_on (hjump _ hname hnext) hholds fun _ _ _ _ => rfl
  | call => exact absurd rfl (hi _)
  | ret => exact absurd hnext nofun

theorem sound_enter {callee : Activation} {rest : List Line} {lr : Word}
    (hlinked : Linked text callee.layout (callee.exits settings globals) callee.frag.label)
    (hargs : ∀ n, (a.exits settings globals).callee callee.frag.label n →
      callee.frag.params.length ≤ n)
    (h : Config.Sound settings globals program top outer ⟨a, callers, s⟩)
    (hrest : a.rest = .inst (.bl callee.frag.label) :: rest) (hcallee : callee.Loaded program)
    (hcode : Line.after callee.frag.label text = some callee.rest)
    (hsp : s.reg .sp = addr top callee.entry) :
    Config.Sound settings globals program top outer
      ⟨callee, { a with rest } :: callers, s.set .lr lr⟩ := by
  obtain ⟨p, hwalks, hholds⟩ := h.walks_at hrest
  obtain ⟨n, hn, hcall, rfl, hafter⟩ := hwalks.of_bl
  have hentry := entry_eq_of_call hn h.loaded.fits hcallee.fits hholds hsp
  have hparams : callee.layout.params.length ≤ n := by
    rw [(Layout.ofFragment_ok hcallee.layout).1]
    exact hargs n hcall
  refine ⟨hcallee, ⟨.entry, hlinked.entry _ hcode, ?_⟩, .call ?_ (h.suspended.of_rest rest)⟩
  · refine .of_entry ?_ ?_
    · rw [A64.State.reg_set_of_ne _ _ (show Reg.sp ≠ .lr by decide), hsp]
    · rw [A64.State.reg_set_of_ne _ _ (show Reg.fp ≠ .lr by decide), hholds.pointer]
      rfl
  · exact ⟨h.loaded.of_rest rest, ⟨n, hn, hcall, hparams, hentry, hafter⟩, hholds.record nofun⟩

theorem sound_outside {routine : String} {rest : List Line}
    (h : Config.Sound settings globals program top outer ⟨a, callers, s⟩)
    (hrest : a.rest = .inst (.bl routine) :: rest) (hsp : t.reg .sp = s.reg .sp)
    (hfp : t.reg .fp = s.reg .fp)
    (hareas : ∀ live ∈ a :: callers, ∀ b ∈ live.area top, t.mem b = s.mem b) :
    Config.Sound settings globals program top outer ⟨{ a with rest }, callers, t⟩ := by
  obtain ⟨p, hwalks, hholds⟩ := h.walks_at hrest
  obtain ⟨n, hn, hcall, rfl, hafter⟩ := hwalks.of_bl
  have hrecord : t.mem.read (a.pointer top) = s.mem.read (a.pointer top) :=
    Activation.read_pointer (hareas a List.mem_cons_self)
  refine h.goes_on hafter (.of_nothing rfl (hsp.trans hholds.sp) (hfp.trans hholds.pointer) ?_) ?_
  · intro hin
    rw [hrecord, hholds.record hin]
  · intro live hlive
    exact hareas live (List.mem_cons_of_mem a hlive)

theorem sound_leave {caller : Activation} {rest : List Line}
    (h : Config.Sound settings globals program top outer ⟨a, caller :: callers, s⟩)
    (hrest : a.rest = .inst .ret :: rest) :
    Config.Sound settings globals program top outer ⟨caller, callers, s⟩ := by
  obtain ⟨p, hwalks, hholds⟩ := h.walks_at hrest
  cases hwalks.of_ret
  cases h.suspended with
  | call hwaits hcallers =>
    obtain ⟨n, hn, hcall, hparams, hentry, hwalks⟩ := hwaits.call
    refine ⟨hwaits.loaded, ⟨caller.layout.calling n, hwalks, ?_⟩, hcallers⟩
    refine .of_nothing rfl ?_ hholds.pointer fun _ => hwaits.record
    rw [hholds.sp, entry_sub_calling, ← hentry]
    congr 1
    exact sub_zero _

theorem sound_step {c c' : Config} (hconnected : Connected settings globals program text)
    (h : c.Sound settings globals program top outer) (hstep : c.Step env program text top c') :
    c'.Sound settings globals program top outer := by
  cases hstep with
  | skip hrest hline => exact sound_skip h hrest hline
  | run hrest hi hnext hdata =>
    exact sound_inst (hconnected.linked _ h.loaded) h hrest hi hnext hdata
  | enter hrest hfrag hlayout hcode hsp hfits =>
    have hcallee : Activation.Loaded _ program := ⟨hfrag, hlayout, hfits⟩
    exact sound_enter (hconnected.linked _ hcallee) (hconnected.args _ _ h.loaded hcallee) h hrest
      hcallee hcode hsp
  | outside hrest _ hsp hfp hareas => exact sound_outside h hrest hsp hfp hareas
  | leave hrest => exact sound_leave h hrest

/-- Every configuration that a sound one reaches is sound, however deep the calls are. -/
theorem sound_run {c c' : Config} (hconnected : Connected settings globals program text)
    (h : c.Sound settings globals program top outer)
    (hrun : Relation.ReflTransGen (Config.Step env program text top) c c') :
    c'.Sound settings globals program top outer := by
  induction hrun with
  | refl => exact h
  | tail _ hstep ih => exact sound_step hconnected ih hstep

end Steps
end A64Lowering
