import Mathlib
import A64Lowering.Ir.Draft
import A64Lowering.Proofs.Lowering.References
import A64Lowering.Proofs.Program.Lowerable

/-! # The labels of a program and what refers to them

* `localLabel`: the shape of the labels inside functions. It tells the function and the suffix
  apart, whatever the function's name is: `localLabel_inj`.
* `Owns`: the labels that the code of a function may have. `Owns.unique`: no label has two owners.
* `Fragment.Named`, `Program.Named`: names are told apart, and labels are fresh and placed once.
* `lowerProgram_closed`: then no label of the text is defined twice, and every reference is met. -/
namespace A64Lowering
set_option autoImplicit false

open A64 Ir

/-! ## Local labels -/

/-- The name starts as the labels do that stay inside an object file. -/
def Hidden (name : String) : Prop := ∃ rest, name = ".L" ++ rest

def localLabel (function suffix : String) : String := ".L" ++ function ++ "_" ++ suffix

theorem hidden_localLabel (function suffix : String) : Hidden (localLabel function suffix) :=
  ⟨function ++ "_" ++ suffix, by simp only [localLabel, String.append_assoc]⟩

theorem Hidden.head? {name : String} (h : Hidden name) : name.toList.head? = some '.' := by
  obtain ⟨rest, rfl⟩ := h
  rw [String.toList_append]
  rfl

/-- The last occurrence of a character splits a list in one way. -/
theorem append_cons_inj {α : Type} {c : α} {front front' back back' : List α} (hback : c ∉ back)
    (hback' : c ∉ back') (h : front ++ c :: back = front' ++ c :: back') :
    front = front' ∧ back = back' := by
  rw [List.append_eq_append_iff] at h
  rcases h with ⟨mid, rfl, hmid⟩ | ⟨mid, rfl, hmid⟩
  · cases mid with
    | nil => exact ⟨(List.append_nil front).symm, (List.cons.inj hmid).2⟩
    | cons b mid =>
      have hmem : c ∈ back := by
        rw [(List.cons.inj hmid).2]
        exact List.mem_append_right _ List.mem_cons_self
      exact absurd hmem hback
  · cases mid with
    | nil => exact ⟨List.append_nil front', (List.cons.inj hmid).2.symm⟩
    | cons b mid =>
      have hmem : c ∈ back' := by
        rw [(List.cons.inj hmid).2]
        exact List.mem_append_right _ List.mem_cons_self
      exact absurd hmem hback'

/-- A suffix without an underscore starts after the last one. -/
theorem localLabel_inj {f g suffix suffix' : String} (hsuffix : '_' ∉ suffix.toList)
    (hsuffix' : '_' ∉ suffix'.toList) (h : localLabel f suffix = localLabel g suffix') :
    f = g ∧ suffix = suffix' := by
  have hchars : (".L" ++ f).toList ++ '_' :: suffix.toList
      = (".L" ++ g).toList ++ '_' :: suffix'.toList := by
    have hunderscore : "_".toList = ['_'] := rfl
    have hlist := congrArg String.toList h
    simpa only [localLabel, String.toList_append, hunderscore, List.append_assoc,
      List.singleton_append] using hlist
  obtain ⟨hfront, hback⟩ := append_cons_inj hsuffix hsuffix' hchars
  rw [String.toList_append, String.toList_append] at hfront
  exact ⟨String.toList_inj.mp (List.append_cancel_left hfront), String.toList_inj.mp hback⟩

theorem underscore_notMem_ofNat (n : ℕ) : '_' ∉ (Decimal.ofNat n).toList := by
  intro hmem
  exact absurd (Decimal.isDigit_of_mem_ofNat hmem) (by decide)

theorem ofNat_ne_int (n : ℕ) : Decimal.ofNat n ≠ "int" := by
  intro heq
  have hmem : 'i' ∈ (Decimal.ofNat n).toList := by
    rw [heq]
    decide
  exact absurd (Decimal.isDigit_of_mem_ofNat hmem) (by decide)

/-! ## Owners -/

/-- The label is the function's own, or one inside it. The suffix of the integer format is no
function's. -/
def Owns (function name : String) : Prop :=
  name = function ∨
    ∃ suffix, '_' ∉ suffix.toList ∧ suffix ≠ "int" ∧ name = localLabel function suffix

theorem Owns.unique {f g name : String} (hf : ¬ Hidden f) (hg : ¬ Hidden g) (h : Owns f name)
    (h' : Owns g name) : f = g := by
  rcases h with rfl | ⟨suffix, hsuffix, -, rfl⟩
  · rcases h' with rfl | ⟨suffix', -, -, rfl⟩
    · rfl
    · exact absurd (hidden_localLabel _ _) hf
  · rcases h' with rfl | ⟨suffix', hsuffix', -, heq⟩
    · exact absurd (hidden_localLabel _ _) hg
    · exact (localLabel_inj hsuffix hsuffix' heq).1

theorem Owns.ne_intFormatLabel {f name : String} (hf : ¬ Hidden f) (h : Owns f name) :
    name ≠ intFormatLabel := by
  rintro rfl
  rcases h with heq | ⟨suffix, hsuffix, hne, heq⟩
  · rw [← heq] at hf
    exact hf ⟨"fmt_int", rfl⟩
  · have hformat : intFormatLabel = localLabel "fmt" "int" := rfl
    rw [hformat] at heq
    exact hne (localLabel_inj (by decide) hsuffix heq).2.symm

/-! ## Named programs -/

namespace Ir

/-- A draft of the fragment hands out this label. -/
def Fragment.HandsOut (frag : Fragment) (name : String) : Prop :=
  ∃ d : Draft, d.fragment.label = frag.label ∧ (Draft.freshLabel.run d).1 = name

/-- The labels of the fragment are fresh, and each of them is placed once. -/
structure Fragment.Named (frag : Fragment) : Prop where
  visible : ¬ Hidden frag.label
  fresh : ∀ inst ∈ frag.body, ∀ name, inst.label? = some name → frag.HandsOut name
  once : ∀ inst ∈ frag.body, ∀ name, inst.label? = some name → frag.body.count (.label name) = 1

/-- The fragments are the functions of the symbol table, each with a name of its own. -/
structure Program.Named (symbols : SymbolTable) (program : Program) : Prop where
  fragments : ∀ frag ∈ program.fragments, frag.Named
  distinct : (program.fragments.map (·.label)).Nodup
  functions : ∀ frag ∈ program.fragments, ∃ returnType scope,
    symbols.bound? globalScope frag.label = some (.function returnType scope)
  globals : ∀ name, symbols.BindsVariable name → ¬ Hidden name

theorem Fragment.HandsOut.owns {frag : Fragment} {name : String} (h : frag.HandsOut name) :
    ∃ n, name = localLabel frag.label (Decimal.ofNat n) := by
  obtain ⟨d, hlabel, rfl⟩ := h
  exact ⟨d.nextLabel.toNat, by rw [← hlabel]; rfl⟩

end Ir

/-! ## The code of a fragment -/

theorem count_placed (body : List Instruction) (name : String) :
    (body.filterMap (·.placed?)).count name = body.count (.label name) := by
  induction body with
  | nil => rfl
  | cons inst body ih =>
    rw [List.filterMap_cons, List.count_cons, ← ih]
    cases inst with
    | label l => simp [Instruction.placed?, List.count_cons]
    | _ => simp [Instruction.placed?]

section Fragments
variable {settings : Settings} {globals : List String} {frag : Fragment} {code : List Line}

theorem site_of_fragmentLines (h : fragmentLines settings globals .temporaries frag = .ok code) :
    ∃ (layout : Layout) (lines : List Line),
      (layout.site settings globals frag).Lowers frag.body lines ∧
      code = (layout.site settings globals frag).whole lines := by
  obtain ⟨layout, lines, -, hlowers, hcode, -⟩ := lowerFragment_ok Pool.temporaries_free
    ((lowerFragment_eq settings globals .temporaries frag).trans (by rw [h]))
  exact ⟨layout, lines, hlowers, hcode⟩

theorem whole_of_fragmentLines (h : fragmentLines settings globals .temporaries frag = .ok code) :
    ∃ site : Site, ∃ lines, site.function = frag.label ∧ site.Lowers frag.body lines ∧
      code = site.whole lines := by
  obtain ⟨layout, lines, hlowers, hcode⟩ := site_of_fragmentLines h
  exact ⟨layout.site settings globals frag, lines, rfl, hlowers, hcode⟩

theorem labels_fragmentLines (h : fragmentLines settings globals .temporaries frag = .ok code) :
    Line.labels code
      = frag.label :: (frag.body.filterMap (·.placed?) ++ [localLabel frag.label "ret"]) := by
  obtain ⟨site, lines, hfunction, hlowers, rfl⟩ := whole_of_fragmentLines h
  have hreturn : site.returnLabel = localLabel frag.label "ret" := by
    have hsuffix : "_ret" = "_" ++ "ret" := rfl
    rw [Site.returnLabel, hfunction, localLabel, hsuffix, ← String.append_assoc]
  rw [labels_whole hlowers, hfunction, hreturn]

theorem Ir.Fragment.Named.mem_placed (hnamed : frag.Named) {name : String}
    (hname : name ∈ frag.body.filterMap (·.placed?)) :
    frag.body.count (.label name) = 1 ∧ ∃ n, name = localLabel frag.label (Decimal.ofNat n) := by
  obtain ⟨inst, hinst, hplaced⟩ := List.mem_filterMap.mp hname
  have hlabel : inst.label? = some name := by
    cases inst with
    | label l => exact hplaced
    | _ => exact absurd hplaced nofun
  exact ⟨hnamed.once inst hinst name hlabel, (hnamed.fresh inst hinst name hlabel).owns⟩

theorem Ir.Fragment.Named.owns (hnamed : frag.Named)
    (h : fragmentLines settings globals .temporaries frag = .ok code) {name : String}
    (hname : name ∈ Line.labels code) : Owns frag.label name := by
  rw [labels_fragmentLines h, List.mem_cons, List.mem_append, List.mem_singleton] at hname
  rcases hname with hentry | hplaced | hreturn
  · exact .inl hentry
  · obtain ⟨-, n, hfresh⟩ := hnamed.mem_placed hplaced
    exact .inr ⟨_, underscore_notMem_ofNat n, ofNat_ne_int n, hfresh⟩
  · exact .inr ⟨"ret", by decide, by decide, hreturn⟩

theorem Ir.Fragment.Named.nodup_labels (hnamed : frag.Named)
    (h : fragmentLines settings globals .temporaries frag = .ok code) :
    (Line.labels code).Nodup := by
  have hplaced : (frag.body.filterMap (·.placed?)).Nodup := by
    rw [List.nodup_iff_count_le_one]
    intro name
    by_cases hname : name ∈ frag.body.filterMap (·.placed?)
    · rw [count_placed, (hnamed.mem_placed hname).1]
    · rw [List.count_eq_zero_of_not_mem hname]
      exact Nat.zero_le 1
  have hreturn : localLabel frag.label "ret" ∉ frag.body.filterMap (·.placed?) := by
    intro hmem
    obtain ⟨-, n, heq⟩ := hnamed.mem_placed hmem
    have hdigits := (localLabel_inj (by decide) (underscore_notMem_ofNat n) heq).2
    have hdigit : 'r' ∈ (Decimal.ofNat n).toList := by
      rw [← hdigits]
      decide
    exact absurd (Decimal.isDigit_of_mem_ofNat hdigit) (by decide)
  have hentry : ∀ suffix, frag.label ≠ localLabel frag.label suffix := by
    intro suffix heq
    exact hnamed.visible ⟨_, heq.trans (hidden_localLabel _ suffix).choose_spec⟩
  rw [labels_fragmentLines h, List.nodup_cons, List.mem_append, List.mem_singleton, not_or]
  refine ⟨⟨?_, hentry "ret"⟩, ?_⟩
  · intro hmem
    obtain ⟨-, n, heq⟩ := hnamed.mem_placed hmem
    exact hentry _ heq
  · rw [List.nodup_append]
    refine ⟨hplaced, List.nodup_singleton _, ?_⟩
    rintro name hname _ hmem rfl
    rw [List.mem_singleton.mp hmem] at hname
    exact hreturn hname

theorem Ir.Fragment.Named.jump_mem (hnamed : frag.Named)
    (h : fragmentLines settings globals .temporaries frag = .ok code) {name : String}
    (hname : .jump name ∈ Line.references code) : name ∈ Line.labels code := by
  obtain ⟨site, lines, hfunction, hlowers, rfl⟩ := whole_of_fragmentLines h
  obtain ⟨inst, hinst, htarget | ⟨-, rfl⟩⟩ := refers_of_whole hlowers hname
  · have hlabel : inst.label? = some name := by
      cases inst with
      | branch _ | condBranch _ _ _ => exact htarget
      | _ => exact absurd htarget nofun
    have hcount := hnamed.once inst hinst name hlabel
    have hmem : Instruction.label name ∈ frag.body := List.count_pos_iff.mp (by omega)
    rw [labels_whole hlowers]
    exact List.mem_cons_of_mem _ (List.mem_append_left _ (List.mem_filterMap.mpr ⟨_, hmem, rfl⟩))
  · rw [labels_whole hlowers]
    simp

/-- Only the addresses of global variables and of the integer format are taken. -/
theorem address_of_fragmentLines (h : fragmentLines settings globals .temporaries frag = .ok code)
    {name : String} (hname : .address name ∈ Line.references code) :
    name = intFormatLabel ∨ ∃ inst ∈ frag.body, inst.global? = some name := by
  obtain ⟨site, lines, -, hlowers, rfl⟩ := whole_of_fragmentLines h
  obtain ⟨inst, hinst, hsymbol⟩ := refers_of_whole hlowers hname
  have hsymbol : inst.symbol? = some name := hsymbol
  cases inst with
  | loadGlobal _ _ | storeGlobal _ _ => exact .inr ⟨_, hinst, hsymbol⟩
  | print _ => exact .inl (Option.some.inj hsymbol).symm
  | _ => exact absurd hsymbol nofun

end Fragments

/-! ## Programs -/

theorem mapM_eq_ok {α β ε : Type} {f : α → Except ε β} {as : List α} {bs : List β} :
    as.mapM f = .ok bs ↔ List.Forall₂ (fun a b => f a = .ok b) as bs := by
  induction as generalizing bs with
  | nil =>
    rw [List.forall₂_nil_left_iff]
    exact ⟨fun h => (Except.ok.inj h).symm, fun h => by rw [h]; rfl⟩
  | cons a as ih =>
    rw [List.mapM_cons, List.forall₂_cons_left_iff]
    constructor
    · intro h
      rcases hfirst : f a with fault | b
      · rw [hfirst] at h
        exact absurd h nofun
      rcases hrest : as.mapM f with fault | rest
      · rw [hfirst, hrest] at h
        exact absurd h nofun
      rw [hfirst, hrest] at h
      exact ⟨b, rest, rfl, ih.mp hrest, (Except.ok.inj h).symm⟩
    · rintro ⟨b, rest, hfirst, hrest, rfl⟩
      rw [hfirst, ih.mpr hrest]
      rfl

section Programs
variable {settings : Settings} {symbols : SymbolTable} {globals : List String}
  {fragments : List Fragment} {codes : List (List Line)}

/-- The code of fragments with names of their own has labels of their own. -/
theorem nodup_labels_flatten (hnamed : ∀ frag ∈ fragments, frag.Named)
    (hdistinct : (fragments.map (·.label)).Nodup)
    (hcodes : List.Forall₂ (fun frag code => fragmentLines settings globals .temporaries frag
      = .ok code) fragments codes) :
    (Line.labels codes.flatten).Nodup ∧
      ∀ name ∈ Line.labels codes.flatten, ∃ frag ∈ fragments, Owns frag.label name := by
  induction hcodes with
  | nil => exact ⟨List.nodup_nil, fun _ h => absurd h List.not_mem_nil⟩
  | @cons frag code fragments codes hcode _ ih =>
    rw [List.map_cons, List.nodup_cons] at hdistinct
    have hfrag := hnamed frag List.mem_cons_self
    have hothers : ∀ other ∈ fragments, other.Named := fun other hother =>
      hnamed other (List.mem_cons_of_mem _ hother)
    obtain ⟨hnodup, howns⟩ := ih hothers hdistinct.2
    rw [List.flatten_cons, Line.labels_append]
    constructor
    · rw [List.nodup_append]
      refine ⟨hfrag.nodup_labels hcode, hnodup, ?_⟩
      rintro name hname _ hother rfl
      obtain ⟨other, hmem, howner⟩ := howns name hother
      have heq := (hfrag.owns hcode hname).unique hfrag.visible (hothers other hmem).visible howner
      exact hdistinct.1 (List.mem_map.mpr ⟨other, hmem, heq.symm⟩)
    · intro name hname
      rcases List.mem_append.mp hname with hfirst | hrest
      · exact ⟨frag, List.mem_cons_self, hfrag.owns hcode hfirst⟩
      · obtain ⟨other, hmem, howner⟩ := howns name hrest
        exact ⟨other, List.mem_cons_of_mem _ hmem, howner⟩

theorem labels_dataSection (vars : List (String × Variable)) :
    Line.labels (dataSection vars) = vars.map (·.1) := by
  have hlines : Line.labels (vars.flatMap fun entry => dataLines entry.1 entry.2)
      = vars.map (·.1) := by
    induction vars with
    | nil => rfl
    | cons entry vars ih =>
      rw [List.flatMap_cons, Line.labels_append, ih]
      rfl
  rw [dataSection]
  split
  · next hempty =>
    rw [List.isEmpty_iff.mp hempty]
    rfl
  · rw [Line.labels_append]
    exact hlines

theorem references_dataSection (vars : List (String × Variable)) :
    Line.references (dataSection vars) = [] := by
  have hlines : Line.references (vars.flatMap fun entry => dataLines entry.1 entry.2) = [] := by
    induction vars with
    | nil => rfl
    | cons entry vars ih =>
      rw [List.flatMap_cons, Line.references_append, ih]
      rfl
  rw [dataSection]
  split
  · rfl
  · rw [Line.references_append]
    exact hlines

theorem labels_fileHeading (settings : Settings) (symbols : SymbolTable) :
    Line.labels (fileHeading settings symbols)
      = symbols.globalVariables.map (·.1) ++ [intFormatLabel] := by
  rw [fileHeading, Line.labels_append, Line.labels_append, labels_dataSection]
  rfl

theorem references_fileHeading (settings : Settings) (symbols : SymbolTable) :
    Line.references (fileHeading settings symbols) = [] := by
  rw [fileHeading, Line.references_append, Line.references_append, references_dataSection]
  rfl

theorem nodup_globalNames (symbols : SymbolTable) :
    (symbols.globalVariables.map (·.1)).Nodup := by
  rw [SymbolTable.globalVariables]
  split
  · next s _ =>
    have hsorted : s.vars.Pairwise fun a b => a.1 < b.1 :=
      NameMap.sorted_filterMap s.entries.sorted Entry.var?
    rw [List.Nodup, List.pairwise_map]
    exact hsorted.imp fun hlt => ne_of_lt hlt
  · exact List.nodup_nil

theorem lowerProgram_eq_ok {program : Program} {text : List Line}
    (h : lowerProgram settings symbols program = .ok text) :
    ∃ codes, program.fragments.mapM (fragmentLines settings (symbols.globalVariables.map (·.1))
        .temporaries) = .ok codes ∧
      text = fileHeading settings symbols ++ codes.flatten := by
  rw [lowerProgram, lowerFragments_eq] at h
  rcases hcodes : program.fragments.mapM (fragmentLines settings
      (symbols.globalVariables.map (·.1)) .temporaries) with fault | codes
  · rw [hcodes] at h
    cases h
  · rw [hcodes] at h
    exact ⟨codes, hcodes, (Except.ok.inj h).symm⟩

theorem mem_references_flatten {ref : Reference} :
    ref ∈ Line.references codes.flatten ↔ ∃ code ∈ codes, ref ∈ Line.references code := by
  rw [Line.references, List.filterMap_flatten]
  simp only [List.mem_flatten, List.mem_map, exists_exists_and_eq_and]
  rfl

theorem exists_of_forall₂ {α β : Type} {R : α → β → Prop} {as : List α} {bs : List β}
    (h : List.Forall₂ R as bs) {b : β} (hb : b ∈ bs) : ∃ a ∈ as, R a b := by
  induction h with
  | nil => exact absurd hb List.not_mem_nil
  | @cons a _ _ _ hhead _ ih =>
    rcases List.mem_cons.mp hb with rfl | hrest
    · exact ⟨a, List.mem_cons_self, hhead⟩
    · obtain ⟨a', hmem, hrel⟩ := ih hrest
      exact ⟨a', List.mem_cons_of_mem _ hmem, hrel⟩

theorem nodup_labels_text {program : Program} (hnamed : program.Named symbols)
    (hcodes : List.Forall₂ (fun frag code => fragmentLines settings globals .temporaries frag
      = .ok code) program.fragments codes) :
    (Line.labels (fileHeading settings symbols ++ codes.flatten)).Nodup := by
  obtain ⟨hnodup, howns⟩ := nodup_labels_flatten hnamed.fragments hnamed.distinct hcodes
  have hformat : intFormatLabel ∉ symbols.globalVariables.map (·.1) := fun hmem =>
    hnamed.globals _ (SymbolTable.mem_globalNames.mp hmem) ⟨"fmt_int", rfl⟩
  rw [Line.labels_append, labels_fileHeading, List.nodup_append, List.nodup_append]
  refine ⟨⟨nodup_globalNames symbols, List.nodup_singleton _, ?_⟩, hnodup, ?_⟩
  · rintro name hname _ hmem rfl
    rw [List.mem_singleton.mp hmem] at hname
    exact hformat hname
  · rintro name hname _ hmem rfl
    obtain ⟨frag, hfrag, howner⟩ := howns name hmem
    have hvisible := (hnamed.fragments frag hfrag).visible
    rcases List.mem_append.mp hname with hglobal | hsingle
    · have hbound := SymbolTable.mem_globalNames.mp hglobal
      rcases howner with rfl | ⟨suffix, -, -, rfl⟩
      · -- a name has one entry, so a function is no variable
        obtain ⟨v, hvar⟩ := hbound
        obtain ⟨returnType, scope, hfunction⟩ := hnamed.functions frag hfrag
        rw [hvar] at hfunction
        cases hfunction
      · exact hnamed.globals _ hbound (hidden_localLabel _ suffix)
    · exact howner.ne_intFormatLabel hvisible (List.mem_singleton.mp hsingle)

/-- In the text of a named program no label is defined twice, every jump stays in the code of its
function, and every address is that of the integer format or of a variable in the data section. -/
theorem lowerProgram_closed {program : Program} {text : List Line} (hnamed : program.Named symbols)
    (h : lowerProgram settings symbols program = .ok text) :
    (Line.labels text).Nodup ∧
    (∃ codes, program.fragments.mapM (fragmentLines settings (symbols.globalVariables.map (·.1))
        .temporaries) = .ok codes ∧ text = fileHeading settings symbols ++ codes.flatten ∧
      ∀ code ∈ codes, ∀ name, .jump name ∈ Line.references code → name ∈ Line.labels code) ∧
    ∀ name, .address name ∈ Line.references text →
      name = intFormatLabel ∨ name ∈ Line.labels (dataSection symbols.globalVariables) := by
  have hlowerable := exists_lowerProgram.mp ⟨text, h⟩
  obtain ⟨codes, hmap, rfl⟩ := lowerProgram_eq_ok h
  have hcodes := mapM_eq_ok.mp hmap
  refine ⟨nodup_labels_text hnamed hcodes, ⟨codes, hmap, rfl, ?_⟩, ?_⟩
  · intro code hcode name hjump
    obtain ⟨frag, hfrag, hlines⟩ := exists_of_forall₂ hcodes hcode
    exact (hnamed.fragments frag hfrag).jump_mem hlines hjump
  · intro name haddress
    rw [Line.references_append, references_fileHeading, List.nil_append] at haddress
    obtain ⟨code, hcode, hmem⟩ := mem_references_flatten.mp haddress
    obtain ⟨frag, hfrag, hlines⟩ := exists_of_forall₂ hcodes hcode
    rcases address_of_fragmentLines hlines hmem with hformat | ⟨inst, hinst, hglobal⟩
    · exact .inl hformat
    · refine .inr ?_
      rw [labels_dataSection]
      exact SymbolTable.mem_globalNames.mpr
        (((hlowerable frag hfrag).body inst hinst).global name hglobal)

def drain : Fragment :=
  ⟨"f", [⟨0⟩], [.label ".Lf_0", .loadGlobal ⟨1⟩ "g", .condBranch ⟨1⟩ true ".Lf_0", .ret none]⟩

/-- A function whose labels start as the label in `drain`. -/
def drainTwin : Fragment := ⟨"f_0", [], [.branch ".Lf_0_0", .label ".Lf_0_0", .ret none]⟩

def drains : Program := ⟨[drain, drainTwin]⟩

def drainsTable : SymbolTable :=
  ((SymbolTable.initial.insert globalScope "f" (.function .int 1)).insert globalScope "f_0"
    (.function .int 2)).insert globalScope "g" (.var ⟨.int, none, ⟨7⟩, none⟩)

theorem Ir.Fragment.Named.of_label {frag : Fragment} {name : String}
    (hhead : frag.label.toList.head? ≠ some '.') (hfresh : frag.HandsOut name)
    (hlabel : ∀ inst ∈ frag.body, ∀ l ∈ inst.label?, l = name)
    (honce : frag.body.count (.label name) = 1) : frag.Named := by
  refine ⟨fun hhidden => hhead hhidden.head?, ?_, ?_⟩
  · intro inst hinst l hl
    rwa [hlabel inst hinst l hl]
  · intro inst hinst l hl
    rwa [hlabel inst hinst l hl]

theorem named_drains : drains.Named drainsTable := by
  have hdrain : drain.Named :=
    .of_label (by decide) ⟨.start "f" .fresh, rfl, rfl⟩ (by decide) (by decide)
  have htwin : drainTwin.Named :=
    .of_label (by decide) ⟨.start "f_0" .fresh, rfl, rfl⟩ (by decide) (by decide)
  constructor
  · intro frag hfrag
    rcases List.mem_pair.mp hfrag with rfl | rfl
    · exact hdrain
    · exact htwin
  · decide
  · intro frag hfrag
    rcases List.mem_pair.mp hfrag with rfl | rfl
    · exact ⟨.int, 1, by decide⟩
    · exact ⟨.int, 2, by decide⟩
  · intro name hbound hhidden
    have hnames : drainsTable.globalVariables.map (·.1) = ["g"] := by decide
    have hmem := SymbolTable.mem_globalNames.mpr hbound
    rw [hnames] at hmem
    rw [List.mem_singleton.mp hmem] at hhidden
    exact absurd hhidden.head? (by decide)

theorem lowerProgram_closed_drains : ∃ text, drains.Named drainsTable ∧
    lowerProgram .default drainsTable drains = .ok text ∧ (Line.labels text).Nodup := by
  have htext : ∃ text, lowerProgram .default drainsTable drains = .ok text := ⟨_, rfl⟩
  obtain ⟨text, htext⟩ := htext
  exact ⟨text, named_drains, htext, (lowerProgram_closed named_drains htext).1⟩

end Programs
end A64Lowering
