import Mathlib
import A64Lowering.Proofs.Lowering.Faults
import A64Lowering.Proofs.Lowering.References
import A64Lowering.Proofs.Lowering.Sequence
import A64Lowering.Proofs.Text.Lines

/-! # Annotated code

* `Line.code`: lines without comments.
* `lowerFragments_plain`: without annotation, fragments are lowered to the code of what they are
  lowered to with it, and have the same fault.
* `comment_mem_whole`: the comments of an annotated function are the texts of its instructions.
* `quiet_of_whole`: no other line prints a comment, if the names in it are plain. -/
namespace A64Lowering
set_option autoImplicit false

open A64 Ir

/-! ## Comments -/

namespace A64.Line

def isCode : Line → Bool
  | .comment _ => false
  | _ => true

def code (lines : List Line) : List Line := lines.filter isCode

theorem code_append (front back : List Line) : code (front ++ back) = code front ++ code back :=
  List.filter_append ..

theorem code_flatten (parts : List (List Line)) : code parts.flatten = (parts.map code).flatten :=
  List.filter_flatten

theorem code_insts (insts : List Inst) : code (insts.map .inst) = insts.map .inst :=
  List.filter_eq_self.mpr (List.forall_mem_map.mpr fun _ _ => rfl)

end A64.Line

theorem mapM_eq_map_mapM {α β γ ε : Type} {f : α → Except ε β} {g : α → Except ε γ} {h : β → γ}
    {as : List α} (hg : ∀ a ∈ as, g a = (f a).map h) : as.mapM g = (as.mapM f).map (List.map h) := by
  induction as with
  | nil => rfl
  | cons a as ih =>
    obtain ⟨hfirst, hrest⟩ := List.forall_mem_cons.mp hg
    rw [List.mapM_cons, List.mapM_cons, hfirst, ih hrest]
    rcases f a with fault | b
    · rfl
    · rcases as.mapM f with fault | bs <;> rfl

/-! ## The setting changes no code -/

def Settings.annotating (settings : Settings) (annotate : Bool) : Settings :=
  { settings with annotate }

namespace Site
variable (s : Site) (annotate : Bool)

def annotating : Site := { s with settings := s.settings.annotating annotate }

theorem loadArgs_annotating (index : ℕ) (args : List VReg) :
    (s.annotating annotate).loadArgs index args = s.loadArgs index args := by
  induction args generalizing index with
  | nil => rfl
  | cons arg args ih =>
    rw [loadArgs, loadArgs, ih]
    rfl

theorem callFunction_annotating (target : Option VReg) (function : String) (args : List VReg) :
    (s.annotating annotate).callFunction target function args
      = s.callFunction target function args := by
  rw [callFunction, callFunction, loadArgs_annotating]
  rfl

theorem lines_annotating (inst : Instruction) :
    (s.annotating annotate).lines inst = s.lines inst := by
  cases inst with
  | call target function args =>
    simp only [lines, operate, callFunction_annotating]
  | ret value => cases value <;> rfl
  | _ => rfl

/-- The lines of an instruction without its annotation are code. -/
theorem code_of_lines {inst : Instruction} {w after : Workspace} {lines : List Line}
    (h : (s.lines inst).run w = (.ok lines, after)) : Line.code lines = lines := by
  by_cases hinst : ∃ name, inst = .label name
  · obtain ⟨name, rfl⟩ := hinst
    cases h
    rfl
  · rw [lines_eq fun name heq => hinst ⟨name, heq⟩, Scratch.run_bind] at h
    rcases hrun : (s.operate inst).run w with ⟨fault | insts, mid⟩
    · rw [hrun] at h
      cases h
    · rw [hrun] at h
      cases h
      exact Line.code_insts insts

theorem instLines_plain (p : Pool) (inst : Instruction) :
    (s.annotating false).instLines p inst
      = ((s.annotating true).instLines p inst).map Line.code := by
  have hlines : ∀ annotate, (s.annotating annotate).instLines p inst
      = ((s.lines inst).run ⟨p, []⟩).1.map
          fun lines => Site.annotation (s.annotating annotate) inst ++ lines := by
    intro annotate
    rw [← s.lines_annotating annotate]
    rfl
  rw [hlines, hlines]
  rcases hrun : (s.lines inst).run ⟨p, []⟩ with ⟨fault | lines, after⟩
  · rfl
  · show Except.ok lines = .ok (Line.code lines)
    rw [s.code_of_lines hrun]

end Site

theorem code_whole (s : Site) (lines : List Line) :
    Line.code (s.whole lines) = s.whole (Line.code lines) := by
  have hheading : Line.code (heading s.function s.layout.frame)
      = heading s.function s.layout.frame := by
    rw [heading, Line.code_append, Line.code_insts]
    rfl
  have hending : Line.code (ending s s.layout.frame) = ending s s.layout.frame := by
    rw [ending, Line.code_append, Line.code_append, Line.code_insts]
    rfl
  rw [Site.whole, Line.code_append, Line.code_append, hheading, hending]
  rfl

section Fragments
variable (settings : Settings) (globals : List String) (p : Pool)

theorem fragmentLines_plain (frag : Fragment) :
    fragmentLines (settings.annotating false) globals p frag
      = (fragmentLines (settings.annotating true) globals p frag).map Line.code := by
  cases hlayout : Layout.ofFragment frag with
  | error fault =>
    rw [fragmentLines, fragmentLines, lowerFragment_of_error _ _ _ hlayout,
      lowerFragment_of_error _ _ _ hlayout]
    rfl
  | ok layout =>
    have hlines : ∀ annotate, fragmentLines (settings.annotating annotate) globals p frag
        = ((frag.body.mapM (((layout.site settings globals frag).annotating annotate).instLines
            p)).map List.flatten).map (layout.site settings globals frag).whole := by
      intro annotate
      rw [fragmentLines, lowerFragment_of_layout _ _ _ hlayout]
      rfl
    rw [hlines, hlines, mapM_eq_map_mapM fun inst _ =>
      (layout.site settings globals frag).instLines_plain p inst]
    rcases frag.body.mapM (((layout.site settings globals frag).annotating true).instLines p)
      with fault | parts
    · rfl
    · show Except.ok ((layout.site settings globals frag).whole (parts.map Line.code).flatten)
        = .ok (Line.code ((layout.site settings globals frag).whole parts.flatten))
      rw [code_whole, Line.code_flatten]

theorem lowerFragments_plain (fragments : List Fragment) :
    lowerFragments (settings.annotating false) globals fragments p
      = (lowerFragments (settings.annotating true) globals fragments p).map Line.code := by
  rw [lowerFragments_eq, lowerFragments_eq, mapM_eq_map_mapM fun frag _ =>
    fragmentLines_plain settings globals p frag]
  rcases fragments.mapM (fragmentLines (settings.annotating true) globals p) with fault | codes
  · rfl
  · show Except.ok (codes.map Line.code).flatten = .ok (Line.code codes.flatten)
    rw [Line.code_flatten]

end Fragments

/-! ## The comments and the other lines of a function -/

section Functions
variable {s : Site} {body : List Instruction} {lines : List Line}

theorem comment_notMem_prints {inst : Instruction} {text : String} (h : s.Prints inst lines) :
    Line.comment text ∉ lines := by
  cases h with
  | label name => simp
  | code => simp

theorem comment_mem_annotation (hannotate : s.settings.annotate = true) {inst : Instruction}
    {text : String} : .comment text ∈ s.annotation inst ↔ text = Text.trim inst.text := by
  unfold Site.annotation
  rw [if_pos hannotate, List.mem_singleton, Line.comment.injEq]

theorem comment_mem_of_lowers (hannotate : s.settings.annotate = true) (h : s.Lowers body lines)
    {text : String} :
    .comment text ∈ lines ↔ ∃ inst ∈ body, text = Text.trim inst.text := by
  induction h with
  | nil => simp
  | cons hinst _ ih =>
    rw [List.mem_append, List.mem_append, comment_mem_annotation hannotate, ih,
      or_iff_left (comment_notMem_prints hinst), List.exists_mem_cons_iff]

theorem comment_mem_whole (hannotate : s.settings.annotate = true) (h : s.Lowers body lines)
    {text : String} :
    .comment text ∈ s.whole lines ↔ ∃ inst ∈ body, text = Text.trim inst.text := by
  rw [← comment_mem_of_lowers hannotate h]
  simp [Site.whole, heading, ending]

/-- The names in a function are plain, and so is its own. -/
structure Site.PlainNames (s : Site) (body : List Instruction) : Prop where
  function : Text.Plain s.function
  labels : ∀ inst ∈ body, ∀ name, inst.label? = some name → Text.Plain name
  symbols : ∀ inst ∈ body, ∀ name, inst.global? = some name → Text.Plain name
  callees : ∀ inst ∈ body, ∀ name n, inst.callee s.settings.runtime = some (name, n) →
    Text.Plain name

theorem oneLine_returnLabel (h : Text.OneLine s.function) : Text.OneLine s.returnLabel := by
  have hsuffix : Text.OneLine "_ret" := by decide
  simp only [Site.returnLabel, Text.oneLine_append]
  exact ⟨⟨by decide, h⟩, hsuffix⟩

theorem reference?_of_name? {i : Inst} {name : String} (h : i.name? = some name) :
    i.reference? = some (.jump name) ∨ i.reference? = some (.address name) ∨ i = .bl name := by
  cases i <;> simp_all [Inst.name?, Inst.reference?]

/-- The name in an instruction is one of those in the function. -/
theorem oneLine_of_form (hnames : s.PlainNames body) {inst : Instruction} (hinst : inst ∈ body)
    {i : Inst} (h : s.Form inst i) {name : String} (hname : i.name? = some name) :
    Text.OneLine name := by
  rcases reference?_of_name? hname with hjump | haddress | rfl
  · rcases refers_of_form h hjump with htarget | ⟨-, rfl⟩
    · have hlabel : inst.label? = some name := by
        cases inst with
        | branch _ | condBranch _ _ _ => exact htarget
        | _ => exact absurd htarget nofun
      exact (hnames.labels inst hinst name hlabel).oneLine
    · exact oneLine_returnLabel hnames.function.oneLine
  · have hsymbol : inst.symbol? = some name := refers_of_form h haddress
    cases inst with
    | loadGlobal _ _ | storeGlobal _ _ => exact (hnames.symbols _ hinst name hsymbol).oneLine
    | print _ =>
      cases hsymbol
      decide
    | _ => exact absurd hsymbol nofun
  · cases h with
    | compute hdestination => cases hdestination
    | address hdestination => cases hdestination
    | jump href => cases href
    | call hcallee => exact (hnames.callees inst hinst name _ hcallee).oneLine

theorem Site.PlainNames.tail {inst : Instruction} (h : s.PlainNames (inst :: body)) :
    s.PlainNames body :=
  ⟨h.function, fun other hother => h.labels other (List.mem_cons_of_mem _ hother),
    fun other hother => h.symbols other (List.mem_cons_of_mem _ hother),
    fun other hother => h.callees other (List.mem_cons_of_mem _ hother)⟩

theorem quiet_of_prints {inst : Instruction} (hnames : s.PlainNames (inst :: body))
    (h : s.Prints inst lines) {l : Line} (hl : l ∈ lines) : l.Quiet := by
  have hinst : inst ∈ inst :: body := List.mem_cons_self
  cases h with
  | label name =>
    rw [List.mem_singleton.mp hl]
    exact Line.quiet_label (hnames.labels _ hinst name rfl)
  | code hemits =>
    obtain ⟨i, hi, rfl⟩ := List.mem_map.mp hl
    exact Line.quiet_inst fun name hname =>
      oneLine_of_form hnames hinst (forms_of_emits hemits i hi) hname

theorem quiet_of_lowers (h : s.Lowers body lines) (hnames : s.PlainNames body) {l : Line}
    (hl : l ∈ lines) (hcode : l.isCode) : l.Quiet := by
  induction h with
  | nil => exact absurd hl List.not_mem_nil
  | @cons inst body lines rest hinst _ ih =>
    rcases List.mem_append.mp hl with hfirst | hrest
    · rcases List.mem_append.mp hfirst with hannotation | hlines
      · obtain ⟨text, rfl⟩ := Site.comment_of_annotationLine hannotation
        cases hcode
      · exact quiet_of_prints hnames hinst hlines
    · exact ih hnames.tail hrest

theorem quiet_insts {insts : List Inst} (h : ∀ i ∈ insts, i.name? = none) :
    ∀ l ∈ insts.map Line.inst, l.Quiet := by
  refine List.forall_mem_map.mpr fun i hi => Line.quiet_inst ?_
  rw [h i hi]
  exact nofun

theorem quiet_heading {name : String} (h : Text.Plain name) (f : Frame) :
    ∀ l ∈ heading name f, l.Quiet := by
  have hsuffix : Text.OneLine ",%function" := by decide
  have htype : (Line.directive (".type " ++ name ++ ",%function")).Quiet := by
    rw [String.append_assoc]
    exact Line.quiet_directive (by simp [h.oneLine, hsuffix]; decide)
      (Text.Unslashed.append (by decide) _)
  have hglobal : (Line.directive (".global " ++ name)).Quiet :=
    Line.quiet_directive (by simp [h.oneLine]; decide) (Text.Unslashed.append (by decide) _)
  have halign : (Line.directive ".p2align 2").Quiet := Line.quiet_directive (by decide) (by decide)
  have hinsts : ∀ i ∈ f.prologue, i.name? = none := by
    simp [Frame.prologue, Inst.name?]
  rw [heading]
  refine List.forall_mem_append.mpr ⟨?_, quiet_insts hinsts⟩
  simp only [List.forall_mem_cons]
  exact ⟨htype, hglobal, halign, Line.quiet_label h, List.forall_mem_nil _⟩

theorem quiet_ending (h : Text.Plain s.function) (f : Frame) : ∀ l ∈ ending s f, l.Quiet := by
  have hmiddle : Text.OneLine ", (. - " := by decide
  have hclose : Text.OneLine ")" := by decide
  have hreturn : Text.Plain s.returnLabel := by
    refine ⟨oneLine_returnLabel h.oneLine, ?_⟩
    simp [Site.returnLabel, String.toList_append]
  have hsize : (Line.directive (".size " ++ s.function ++ ", (. - " ++ s.function ++ ")")).Quiet := by
    rw [String.append_assoc, String.append_assoc, String.append_assoc]
    exact Line.quiet_directive (by simp [h.oneLine, hmiddle, hclose]; decide)
      (Text.Unslashed.append (by decide) _)
  have hinsts : ∀ i ∈ f.epilogue, i.name? = none := by
    simp [Frame.epilogue, Inst.name?, or_imp, forall_and]
  rw [ending]
  refine List.forall_mem_append.mpr ⟨List.forall_mem_append.mpr ⟨?_, quiet_insts hinsts⟩, ?_⟩
  · exact List.forall_mem_singleton.mpr (Line.quiet_label hreturn)
  · exact List.forall_mem_singleton.mpr hsize

/-- In a function with plain names, no line but the comments prints a comment. -/
theorem quiet_of_whole (h : s.Lowers body lines) (hnames : s.PlainNames body) {l : Line}
    (hl : l ∈ s.whole lines) (hcode : l.isCode) : l.Quiet := by
  rcases List.mem_append.mp hl with hfirst | hending
  · rcases List.mem_append.mp hfirst with hheading | hbody
    · exact quiet_heading hnames.function _ l hheading
    · exact quiet_of_lowers h hnames hbody hcode
  · exact quiet_ending hnames.function _ l hending

end Functions
end A64Lowering
