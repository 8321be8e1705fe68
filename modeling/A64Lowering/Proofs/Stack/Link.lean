import Mathlib
import A64Lowering.Lowering.Program
import A64Lowering.Proofs.Stack.Walk

/-! # The functions of a program in its text

* `Line.labels`: the labels of a text, which an assembler wants to be distinct.
* `place_of_lowerProgram`: where the lines of a fragment are in the text of its program.
* `Linked`: a function walks from its label and from each label that it branches to, wherever in the
  text they are found. `linked_of_lowerProgram`: all functions of a program are linked. -/
namespace A64Lowering
set_option autoImplicit false

open A64 Ir

/-! ## Labels of a text -/

/-- The labels of a text, in order. -/
def A64.Line.labels (text : List Line) : List String :=
  text.filterMap fun
    | .label name => some name
    | _ => none

theorem mem_labels {text : List Line} {name : String} :
    name ∈ Line.labels text ↔ Line.label name ∈ text := by
  rw [Line.labels, List.mem_filterMap]
  constructor
  · rintro ⟨line, hline, hname⟩
    cases line with
    | label l =>
      cases hname
      exact hline
    | inst _ | directive _ | comment _ => cases hname
  · intro h
    exact ⟨.label name, h, rfl⟩

theorem label_notMem_of_nodup {front back : List Line} {name : String}
    (h : (Line.labels (front ++ back)).Nodup) (hback : Line.label name ∈ back) :
    Line.label name ∉ front := by
  intro hfront
  rw [Line.labels, List.filterMap_append] at h
  exact (List.nodup_append.mp h).2.2 name (mem_labels.mpr hfront) name (mem_labels.mpr hback) rfl

/-! ## Places of functions -/

/-- The lines of a function. -/
def Site.whole (s : Site) (lines : List Line) : List Line :=
  heading s.function s.layout.frame ++ lines ++ ending s s.layout.frame

theorem place_of_lowerFragments {settings : Settings} {globals : List String}
    {fragments : List Fragment} {p : Pool} {text : List Line} (hp : p.Temporaries)
    (h : lowerFragments settings globals fragments p = .ok text) {frag : Fragment}
    (hfrag : frag ∈ fragments) {layout : Layout} (hlayout : Layout.ofFragment frag = .ok layout) :
    ∃ before after lines, (layout.site settings globals frag).Lowers frag.body lines ∧
      text = before ++ (layout.site settings globals frag).whole lines ++ after := by
  induction fragments generalizing text with
  | nil => exact absurd hfrag List.not_mem_nil
  | cons first fragments ih =>
    rw [lowerFragments] at h
    rcases hfirst : lowerFragment settings globals first p with ⟨fault | code, p'⟩
    · rw [hfirst] at h
      exact absurd h nofun
    obtain ⟨layout', lines, hlayout', hlowers, hcode, rfl⟩ := lowerFragment_ok hp hfirst
    rw [hfirst] at h
    rcases hrest : lowerFragments settings globals fragments p' with fault | rest
    · simp only [hrest] at h
      exact absurd h nofun
    simp only [hrest] at h
    cases h
    rcases List.mem_cons.mp hfrag with rfl | hmem
    · rw [hlayout] at hlayout'
      cases hlayout'
      exact ⟨[], rest, lines, hlowers, by rw [List.nil_append, hcode]; rfl⟩
    · obtain ⟨before, after, lines, hlowers, rfl⟩ := ih hrest hmem
      exact ⟨code ++ before, after, lines, hlowers, by simp only [List.append_assoc]⟩

theorem place_of_lowerProgram {settings : Settings} {symbols : SymbolTable} {program : Program}
    {text : List Line} (h : lowerProgram settings symbols program = .ok text) {frag : Fragment}
    (hfrag : frag ∈ program.fragments) {layout : Layout}
    (hlayout : Layout.ofFragment frag = .ok layout) :
    ∃ before after lines,
      (layout.site settings (symbols.globalVariables.map (·.1)) frag).Lowers frag.body lines ∧
      text = before
        ++ (layout.site settings (symbols.globalVariables.map (·.1)) frag).whole lines ++ after := by
  rw [lowerProgram] at h
  rcases hcode : lowerFragments settings (symbols.globalVariables.map (·.1)) program.fragments
      .temporaries with fault | code
  · simp only [hcode] at h
    exact absurd h nofun
  · simp only [hcode] at h
    cases h
    obtain ⟨before, after, lines, hlowers, rfl⟩ :=
      place_of_lowerFragments Pool.temporaries_free hcode hfrag hlayout
    exact ⟨fileHeading settings symbols ++ before, after, lines, hlowers,
      by simp only [List.append_assoc]⟩

/-! ## Links -/

/-- The function with this label walks from its label, and from each label that it may branch to. -/
structure Linked (text : List Line) (l : Layout) (x : Exits) (name : String) : Prop where
  entry : ∀ code, Line.after name text = some code → Walks l x .entry code
  label : ∀ target, x.label target →
    ∃ rest, Line.after target text = some rest ∧ Walks l x l.resting rest

theorem after_whole_function (site : Site) (lines after : List Line) :
    Line.after site.function (site.whole lines ++ after)
      = some (site.layout.frame.prologue.map .inst
        ++ (lines ++ (ending site site.layout.frame ++ after))) := by
  simp [Site.whole, heading, Line.after]

theorem after_whole {site : Site} {name : String} (hne : name ≠ site.function)
    (lines after : List Line) :
    Line.after name (site.whole lines ++ after)
      = Line.after name (lines ++ (ending site site.layout.frame ++ after)) := by
  have hheading : Line.label name ∉ heading site.function site.layout.frame := by
    simp [heading, hne]
  rw [Site.whole, List.append_assoc, List.append_assoc, after_append_of_not_mem _ hheading]

section Linked
variable {site : Site} {body : List Instruction} {lines before after : List Line}

theorem label_ne_of_nodup (h : (Line.labels (site.whole lines)).Nodup) {name : String}
    (hmem : Line.label name ∈ lines) : name ≠ site.function ∧ name ≠ site.returnLabel := by
  rw [Site.whole] at h
  constructor
  · rintro rfl
    rw [List.append_assoc] at h
    refine label_notMem_of_nodup h (List.mem_append_left _ hmem) ?_
    simp [heading]
  · rintro rfl
    refine label_notMem_of_nodup h (by simp [ending]) (List.mem_append_right _ hmem)

theorem linked_of_place (fits : site.layout.Fits) (hlowers : site.Lowers body lines)
    (hnodup : (Line.labels (before ++ site.whole lines ++ after)).Nodup)
    (hbranches : ∀ inst ∈ body, ∀ name, inst.target = some name → .label name ∈ body) :
    Linked (before ++ site.whole lines ++ after) site.layout (site.exits body) site.function := by
  -- labels are distinct, so a search through the whole text ends in this function
  have hskip : ∀ name, Line.label name ∈ site.whole lines →
      Line.after name (before ++ site.whole lines ++ after)
        = Line.after name (site.whole lines ++ after) := by
    intro name hmem
    rw [List.append_assoc] at hnodup ⊢
    exact after_append_of_not_mem _
      (label_notMem_of_nodup hnodup (List.mem_append_left _ hmem))
  have hwhole : (Line.labels (site.whole lines)).Nodup := by
    rw [Line.labels, List.filterMap_append, List.filterMap_append] at hnodup
    exact (List.nodup_append.mp (List.nodup_append.mp hnodup).1).2.1
  constructor
  · intro code hcode
    rw [hskip _ (by simp [Site.whole, heading]), after_whole_function] at hcode
    cases hcode
    exact walks_function fits hlowers after
  · rintro target (rfl | ⟨inst, hinst, htarget⟩)
    · have hbody : Line.label site.returnLabel ∉ lines := fun hmem =>
        (label_ne_of_nodup hwhole hmem).2 rfl
      rw [hskip _ (by simp [Site.whole, ending]), after_whole (returnLabel_ne site),
        after_append_of_not_mem _ hbody]
      have hwalks := walks_ending site (site.exits body) after
      rw [ending, List.append_assoc, List.append_assoc, List.singleton_append] at hwalks ⊢
      exact ⟨_, if_pos rfl, hwalks.of_label.2⟩
    · have hmem := hbranches inst hinst target htarget
      have hlines := label_mem_lines hlowers hmem
      obtain ⟨rest, hafter⟩ := exists_after hmem
      rw [hskip _ (List.mem_append_left _ (List.mem_append_right _ hlines)),
        after_whole (label_ne_of_nodup hwhole hlines).1]
      obtain ⟨restLines, hrest, hline⟩ :=
        after_of_lowers hlowers (ending site site.layout.frame ++ after) hafter
      exact ⟨_, hline, walks_label fits hrest (mem_of_after hafter).2 after⟩

end Linked

/-- Every function of a program is linked, if its labels are distinct and its branches stay in the
body that they are in. -/
theorem linked_of_lowerProgram {settings : Settings} {symbols : SymbolTable} {program : Program}
    {text : List Line} (h : lowerProgram settings symbols program = .ok text)
    (hnodup : (Line.labels text).Nodup) {frag : Fragment} (hfrag : frag ∈ program.fragments)
    (hbranches : ∀ inst ∈ frag.body, ∀ name, inst.target = some name → .label name ∈ frag.body)
    {layout : Layout} (hlayout : Layout.ofFragment frag = .ok layout) :
    Linked text layout ((layout.site settings (symbols.globalVariables.map (·.1)) frag).exits
      frag.body) frag.label := by
  obtain ⟨before, after, lines, hlowers, rfl⟩ := place_of_lowerProgram h hfrag hlayout
  have fits : (layout.site settings (symbols.globalVariables.map (·.1)) frag).layout.Fits :=
    Layout.fits_of_ofFragment hlayout
  exact linked_of_place fits hlowers hnodup hbranches

end A64Lowering
