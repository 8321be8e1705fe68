import Mathlib
import A64Lowering.Session
import A64Lowering.Proofs.Lowering.Annotation
import A64Lowering.Proofs.Program.Linkage

/-! # Annotated programs

* `compile_plain`: annotated lines are the lines without annotation and comments.
* `codeLines_assembly_iff`: dropping the comment lines of a text drops its comments, if and only if
  each comment prints nothing but comment lines.
* `Instruction.Contained`: so it is for the comment of this instruction. `contained_of_oneLine`: names
  in one line suffice.
* `compileToText_annotated`: when annotation changes no code. -/
namespace A64Lowering
set_option autoImplicit false

open A64 Ir
open Text (OneLine Plain IsComment splitLines codeLines)

def Session.annotating (s : Session) (annotate : Bool) : Session :=
  { s with settings := s.settings.annotating annotate }

/-! ## Lines -/

theorem code_fileHeading (settings : Settings) (symbols : SymbolTable) :
    Line.code (fileHeading settings symbols) = fileHeading settings symbols := by
  have hdata : Line.code (dataSection symbols.globalVariables)
      = dataSection symbols.globalVariables := by
    refine List.filter_eq_self.mpr ?_
    intro l hl
    rw [dataSection] at hl
    split at hl
    · exact absurd hl List.not_mem_nil
    · simp only [dataLines, List.mem_append, List.mem_cons, List.not_mem_nil, or_false,
        List.mem_flatMap] at hl
      rcases hl with (rfl | rfl) | ⟨entry, -, rfl | rfl⟩ <;> rfl
  rw [fileHeading, Line.code_append, Line.code_append, hdata]
  rfl

theorem compile_plain (s : Session) (program : Program) :
    (s.annotating false).compile program = ((s.annotating true).compile program).map Line.code := by
  have hlower : ∀ annotate, (s.annotating annotate).compile program
      = (lowerFragments (s.settings.annotating annotate) (s.symbols.globalVariables.map (·.1))
          program.fragments .temporaries).map (fileHeading s.settings s.symbols ++ ·) :=
    fun _ => rfl
  rw [hlower, hlower, lowerFragments_plain]
  rcases lowerFragments (s.settings.annotating true) _ program.fragments .temporaries
    with fault | lines
  · rfl
  · show Except.ok (fileHeading s.settings s.symbols ++ Line.code lines)
      = .ok (Line.code (fileHeading s.settings s.symbols ++ lines))
    rw [Line.code_append, code_fileHeading]

/-! ## Text -/

theorem flatMap_filter_eq_iff {α β : Type} {p : α → Bool} {f : α → List β} {l : List α} :
    (l.filter p).flatMap f = l.flatMap f ↔ ∀ a ∈ l, p a = false → f a = [] := by
  -- an element that is dropped has nothing to show, because the rest alone is no longer than both
  have hle : ∀ l : List α, ((l.filter p).flatMap f).length ≤ (l.flatMap f).length :=
    fun l => (List.Sublist.flatMap List.filter_sublist f).length_le
  induction l with
  | nil => simp
  | cons a l ih =>
    rw [List.forall_mem_cons, List.flatMap_cons]
    cases ha : p a with
    | true =>
      rw [List.filter_cons_of_pos ha, List.flatMap_cons, List.append_right_inj]
      exact ⟨fun h => ⟨nofun, ih.mp h⟩, fun h => ih.mpr h.2⟩
    | false =>
      rw [List.filter_cons_of_neg (Bool.not_eq_true _ ▸ ha)]
      constructor
      · intro h
        have hlength := congrArg List.length h
        have hrest := hle l
        rw [List.length_append] at hlength
        have hnil : f a = [] := List.length_eq_zero_iff.mp (by omega)
        rw [hnil, List.nil_append] at h
        exact ⟨fun _ => hnil, ih.mp h⟩
      · rintro ⟨hnil, hrest⟩
        rw [hnil rfl, List.nil_append]
        exact ih.mpr hrest

theorem codeLines_assembly (lines : List Line) :
    codeLines (assembly lines) = lines.flatMap (fun l => codeLines l.text) ++ [""] := by
  rw [codeLines, assembly, Text.splitLines_joinLines, List.filter_append, List.filter_flatMap,
    List.flatMap_map]
  rfl

theorem codeLines_of_quiet {l : Line} (h : l.Quiet) : codeLines l.text = splitLines l.text :=
  List.filter_eq_self.mpr fun line hline => by simpa using h line hline

theorem codeLines_eq_nil {text : String} :
    codeLines text = [] ↔ ∀ line ∈ splitLines text, IsComment line := by
  simp [codeLines]

/-- Without its comment lines the text is that of the code, if every comment prints comment lines
and nothing else. -/
theorem codeLines_assembly_iff {lines : List Line} (quiet : ∀ l ∈ Line.code lines, l.Quiet) :
    codeLines (assembly lines) = splitLines (assembly (Line.code lines)) ↔
      ∀ text, .comment text ∈ lines → ∀ line ∈ splitLines (Line.comment text).text,
        IsComment line := by
  have hcode : splitLines (assembly (Line.code lines))
      = (Line.code lines).flatMap (fun l => codeLines l.text) ++ [""] := by
    rw [assembly, Text.splitLines_joinLines, List.flatMap_map]
    congr 1
    exact List.flatMap_congr fun l hl => (codeLines_of_quiet (quiet l hl)).symm
  rw [hcode, codeLines_assembly, List.append_left_inj, eq_comm, Line.code, flatMap_filter_eq_iff]
  constructor
  · intro h text htext
    exact codeLines_eq_nil.mp (h _ htext rfl)
  · intro h l hl hcomment
    cases l with
    | comment text => exact codeLines_eq_nil.mpr (h text hl)
    | _ => cases hcomment

/-! ## Names -/

/-- All names that reach the lines of a program outside comments are plain. -/
structure Session.PlainNames (s : Session) (program : Program) : Prop where
  arch : Plain s.settings.arch
  malloc : Plain s.settings.runtime.malloc
  free : Plain s.settings.runtime.free
  printf : Plain s.settings.runtime.printf
  globals : ∀ name, s.symbols.BindsVariable name → Plain name
  fragments : ∀ frag ∈ program.fragments, Plain frag.label
  labels : ∀ frag ∈ program.fragments, ∀ inst ∈ frag.body, ∀ name, inst.label? = some name →
    Plain name
  functions : ∀ frag ∈ program.fragments, ∀ target function args,
    .call target function args ∈ frag.body → Plain function

section Programs
variable {s : Session} {program : Program} {lines : List Line}

theorem quiet_fileHeading (hnames : s.PlainNames program) :
    ∀ l ∈ fileHeading s.settings s.symbols, l.Quiet := by
  have hdirective : ∀ text, OneLine text → Text.Unslashed text → (Line.directive text).Quiet :=
    fun _ => Line.quiet_directive
  have hword : ∀ n : ℤ, (Line.directive (".quad " ++ Decimal.ofInt n)).Quiet := fun n =>
    hdirective _ (by simp [Text.oneLine_ofInt]; decide) (Text.Unslashed.append (by decide) _)
  have hdata : ∀ l ∈ dataSection s.symbols.globalVariables, l.Quiet := by
    rw [dataSection]
    split
    · exact List.forall_mem_nil _
    · refine List.forall_mem_append.mpr ⟨?_, ?_⟩
      · simp only [List.forall_mem_cons]
        exact ⟨hdirective _ (by decide) (by decide), hdirective _ (by decide) (by decide),
          List.forall_mem_nil _⟩
      · intro l hl
        obtain ⟨⟨name, v⟩, hentry, hl⟩ := List.mem_flatMap.mp hl
        have hname : Plain name := hnames.globals name
          (SymbolTable.mem_globalNames.mp (List.mem_map.mpr ⟨_, hentry, rfl⟩))
        simp only [dataLines, List.mem_cons, List.not_mem_nil, or_false] at hl
        rcases hl with rfl | rfl
        · exact Line.quiet_label hname
        · exact hword _
  have harch : (Line.directive (".arch " ++ s.settings.arch)).Quiet :=
    hdirective _ (by simp [hnames.arch.oneLine]; decide) (Text.Unslashed.append (by decide) _)
  rw [fileHeading]
  refine List.forall_mem_append.mpr ⟨List.forall_mem_append.mpr ⟨?_, hdata⟩, ?_⟩
  · exact List.forall_mem_singleton.mpr harch
  · simp only [List.forall_mem_cons]
    exact ⟨hdirective _ (by decide) (by decide), Line.quiet_label (by decide),
      hdirective _ (by decide) (by decide), hdirective _ (by decide) (by decide),
      List.forall_mem_nil _⟩

theorem Session.PlainNames.site (hnames : s.PlainNames program)
    (hcompile : (s.annotating true).compile program = .ok lines) {frag : Fragment}
    (hfrag : frag ∈ program.fragments) (layout : Layout) (globals : List String) :
    (layout.site (s.settings.annotating true) globals frag).PlainNames frag.body := by
  have hlowerable := exists_lowerProgram.mp ⟨lines, hcompile⟩ frag hfrag
  refine ⟨hnames.fragments frag hfrag, hnames.labels frag hfrag, ?_, ?_⟩
  · intro inst hinst name hglobal
    exact hnames.globals name ((hlowerable.body inst hinst).global name hglobal)
  · intro inst hinst name n hcallee
    cases inst <;> cases hcallee
    · exact hnames.malloc
    · exact hnames.free
    · exact hnames.printf
    · exact hnames.functions frag hfrag _ _ _ hinst

/-- The lines of an annotated program: a heading without comments, and the functions. -/
theorem functions_of_compile (hcompile : (s.annotating true).compile program = .ok lines) :
    ∃ codes, lines = fileHeading s.settings s.symbols ++ codes.flatten ∧
      List.Forall₂ (fun frag code => ∃ (layout : Layout) (body : List Line),
        (layout.site (s.settings.annotating true) (s.symbols.globalVariables.map (·.1))
          frag).Lowers frag.body body ∧
        code = (layout.site (s.settings.annotating true) (s.symbols.globalVariables.map (·.1))
          frag).whole body) program.fragments codes := by
  obtain ⟨codes, hcodes, rfl⟩ := lowerProgram_eq_ok hcompile
  exact ⟨codes, rfl, (mapM_eq_ok.mp hcodes).imp fun _ _ => site_of_fragmentLines⟩

theorem quiet_of_compile (hnames : s.PlainNames program)
    (hcompile : (s.annotating true).compile program = .ok lines) :
    ∀ l ∈ Line.code lines, l.Quiet := by
  obtain ⟨codes, rfl, hcodes⟩ := functions_of_compile hcompile
  intro l hl
  obtain ⟨hl, hcode⟩ := List.mem_filter.mp hl
  rcases List.mem_append.mp hl with hheading | hfunctions
  · exact quiet_fileHeading hnames l hheading
  · obtain ⟨code, hmem, hl⟩ := List.mem_flatten.mp hfunctions
    obtain ⟨frag, hfrag, layout, body, hlowers, rfl⟩ := exists_of_forall₂ hcodes hmem
    exact quiet_of_whole hlowers (hnames.site hcompile hfrag layout _) hl hcode

theorem comment_mem_of_compile (hcompile : (s.annotating true).compile program = .ok lines)
    {text : String} : .comment text ∈ lines ↔
      ∃ frag ∈ program.fragments, ∃ inst ∈ frag.body, text = Text.trim inst.text := by
  obtain ⟨codes, rfl, hcodes⟩ := functions_of_compile hcompile
  have hheading : Line.comment text ∉ fileHeading s.settings s.symbols := by
    intro hmem
    rw [← code_fileHeading] at hmem
    exact absurd (List.mem_filter.mp hmem).2 nofun
  rw [List.mem_append, or_iff_right hheading, List.mem_flatten]
  constructor
  · rintro ⟨code, hcode, hmem⟩
    obtain ⟨frag, hfrag, layout, body, hlowers, rfl⟩ := exists_of_forall₂ hcodes hcode
    exact ⟨frag, hfrag, (comment_mem_whole rfl hlowers).mp hmem⟩
  · rintro ⟨frag, hfrag, hinst⟩
    obtain ⟨code, hcode, layout, body, hlowers, rfl⟩ := exists_of_forall₂ hcodes.flip hfrag
    exact ⟨_, hcode, (comment_mem_whole rfl hlowers).mpr hinst⟩

end Programs

/-! ## Contained comments -/

namespace Ir

/-- The name that only the listing of an instruction shows. -/
def Instruction.note? : Instruction → Option String
  | .new _ typeName _ => some typeName
  | .loadField _ _ field _ | .storeField _ _ field _ => some field
  | _ => none

def Instruction.names : Instruction → List String
  | .loadGlobal _ name | .storeGlobal _ name | .loadField _ _ name _ | .storeField _ _ name _
  | .new _ name _ | .label name | .branch name | .condBranch _ _ name | .call _ name _ => [name]
  | _ => []

/-- The comment on the instruction prints comment lines only. -/
def Instruction.Contained (inst : Instruction) : Prop :=
  ∀ line ∈ splitLines (Line.comment (Text.trim inst.text)).text, IsComment line

instance : DecidablePred Instruction.Contained := fun inst =>
  inferInstanceAs (Decidable (∀ line ∈ splitLines (Line.comment (Text.trim inst.text)).text,
    IsComment line))

theorem oneLine_register (r : VReg) : OneLine r.text :=
  Text.oneLine_append.mpr ⟨by decide, Text.oneLine_ofNat _⟩

theorem oneLine_operand (operand : Operand) : OneLine operand.text := by
  cases operand with
  | reg r => exact oneLine_register r
  | imm n => exact Text.oneLine_append.mpr ⟨by decide, Text.oneLine_ofInt _⟩

theorem oneLine_op (op : BinaryOp) : OneLine op.text := by cases op <;> decide

theorem oneLine_unary (op : UnaryOp) : OneLine op.text := by cases op <;> decide

theorem oneLine_compare (cond : CompareOp) : OneLine cond.text := by cases cond <;> decide

theorem oneLine_text {inst : Instruction} (h : ∀ name ∈ inst.names, OneLine name) :
    OneLine inst.text := by
  have hregs : ∀ args : List VReg, OneLine (Text.commaSeparated (args.map VReg.text)) := fun args =>
    Text.oneLine_commaSeparated (List.forall_mem_map.mpr fun r _ => oneLine_register r)
  rw [Instruction.text.eq_def]
  cases inst with
  | mov target operand =>
    simp [Text.commaSeparated, oneLine_register, oneLine_operand]
    decide
  | binary op target lhs rhs =>
    simp [Text.commaSeparated, oneLine_register, oneLine_operand, oneLine_op]
    decide
  | unary op target source =>
    simp [Text.commaSeparated, oneLine_register, oneLine_unary]
    decide
  | compare cond target lhs rhs =>
    simp [Text.commaSeparated, oneLine_register, oneLine_operand,
      oneLine_compare]
    decide
  | loadGlobal _ name | storeGlobal _ name | loadField _ _ name _ | storeField _ _ name _
  | new _ name _ | label name | branch name =>
    have hname : OneLine name := h name List.mem_cons_self
    simp [oneLine_register, hname]
    decide
  | condBranch _ onTrue name =>
    have hname : OneLine name := h name List.mem_cons_self
    cases onTrue <;> simp [oneLine_register, hname] <;> decide
  | call target function args =>
    have hname : OneLine function := h function List.mem_cons_self
    cases target <;> simp [oneLine_register, hname, hregs] <;> decide
  | delete source | print source =>
    simp [oneLine_register]
    decide
  | ret value =>
    cases value with
    | none => decide
    | some value =>
      simp [oneLine_register]
      decide

theorem contained_of_oneLine {inst : Instruction} (h : ∀ name ∈ inst.names, OneLine name) :
    inst.Contained :=
  isComment_comment (oneLine_text h).trim

end Ir

section Programs
variable {s : Session} {program : Program}

theorem Session.PlainNames.contained (hnames : s.PlainNames program) {lines : List Line}
    (hcompile : (s.annotating true).compile program = .ok lines) {frag : Fragment}
    (hfrag : frag ∈ program.fragments) {inst : Instruction} (hinst : inst ∈ frag.body)
    (hnote : ∀ name, inst.note? = some name → OneLine name) : inst.Contained := by
  have hlowerable := (exists_lowerProgram.mp ⟨lines, hcompile⟩ frag hfrag).body inst hinst
  have hlabel := hnames.labels frag hfrag inst hinst
  apply contained_of_oneLine
  cases inst with
  | loadGlobal _ name | storeGlobal _ name =>
    exact List.forall_mem_singleton.mpr (hnames.globals name (hlowerable.global name rfl)).oneLine
  | loadField _ _ name _ | storeField _ _ name _ | new _ name _ =>
    exact List.forall_mem_singleton.mpr (hnote name rfl)
  | label name | branch name | condBranch _ _ name =>
    exact List.forall_mem_singleton.mpr (hlabel name rfl).oneLine
  | call target function args =>
    exact List.forall_mem_singleton.mpr
      (hnames.functions frag hfrag target function args hinst).oneLine
  | _ => exact nofun

theorem compile_of_compileToText {text : String} (h : s.compileToText program = .ok text) :
    ∃ lines, s.compile program = .ok lines ∧ text = assembly lines := by
  rw [Session.compileToText] at h
  cases hcompile : s.compile program with
  | error fault =>
    rw [hcompile] at h
    cases h
  | ok lines =>
    rw [hcompile] at h
    exact ⟨lines, rfl, (Except.ok.inj h).symm⟩

/-- Without its comment lines the annotated text is the one without annotation if and only if the
comments on all instructions are contained. -/
theorem codeLines_eq_iff (hnames : s.PlainNames program) {noted bare : String}
    (hnoted : (s.annotating true).compileToText program = .ok noted)
    (hbare : (s.annotating false).compileToText program = .ok bare) :
    codeLines noted = splitLines bare ↔
      ∀ frag ∈ program.fragments, ∀ inst ∈ frag.body, inst.Contained := by
  obtain ⟨lines, hcompile, rfl⟩ := compile_of_compileToText hnoted
  rw [Session.compileToText, compile_plain, hcompile] at hbare
  cases hbare
  rw [codeLines_assembly_iff (quiet_of_compile hnames hcompile)]
  constructor
  · intro h frag hfrag inst hinst
    exact h _ ((comment_mem_of_compile hcompile).mpr ⟨frag, hfrag, inst, hinst, rfl⟩)
  · intro h text htext
    obtain ⟨frag, hfrag, inst, hinst, rfl⟩ := (comment_mem_of_compile hcompile).mp htext
    exact h frag hfrag inst hinst

theorem compileToText_eq_error {fault : LoweringFault} :
    (s.annotating true).compileToText program = .error fault ↔
      (s.annotating false).compileToText program = .error fault := by
  rw [Session.compileToText, Session.compileToText, compile_plain]
  cases (s.annotating true).compile program with
  | error _ => exact Iff.rfl
  | ok _ => exact ⟨nofun, nofun⟩

/-- Annotation changes no fault. It changes no line but comments if and only if the comment on each
instruction is contained, which it is if type and field names have no line feeds. -/
theorem compileToText_annotated (hnames : s.PlainNames program) :
    (∀ fault, (s.annotating true).compileToText program = .error fault ↔
      (s.annotating false).compileToText program = .error fault) ∧
    ∀ noted bare, (s.annotating true).compileToText program = .ok noted →
      (s.annotating false).compileToText program = .ok bare →
      (codeLines noted = splitLines bare ↔
        ∀ frag ∈ program.fragments, ∀ inst ∈ frag.body, inst.Contained) ∧
      ((∀ frag ∈ program.fragments, ∀ inst ∈ frag.body, ∀ name, inst.note? = some name →
        OneLine name) → codeLines noted = splitLines bare) := by
  refine ⟨fun _ => compileToText_eq_error, ?_⟩
  intro noted bare hnoted hbare
  have hiff := codeLines_eq_iff hnames hnoted hbare
  refine ⟨hiff, ?_⟩
  intro hnotes
  obtain ⟨lines, hcompile, -⟩ := compile_of_compileToText hnoted
  exact hiff.mpr fun frag hfrag inst hinst =>
    hnames.contained hcompile hfrag hinst (hnotes frag hfrag inst hinst)

end Programs

def takes (typeName : String) : Program := ⟨[⟨"f", [], [.new ⟨0⟩ typeName 1]⟩]⟩

theorem plainNames_takes (typeName : String) :
    (Session.start .default).PlainNames (takes typeName) := by
  have hbody : ∀ frag ∈ (takes typeName).fragments, ∀ inst ∈ frag.body,
      inst = .new ⟨0⟩ typeName 1 := by
    simp [takes]
  constructor
  case globals =>
    rintro name ⟨v, hv⟩
    cases hv
  case fragments => simp +decide [takes]
  case labels =>
    intro frag hfrag inst hinst name hname
    rw [hbody frag hfrag inst hinst] at hname
    cases hname
  case functions =>
    intro frag hfrag target function args hinst
    cases hbody frag hfrag _ hinst
  all_goals decide

theorem compiles_takes (typeName : String) : ∃ noted bare,
    ((Session.start .default).annotating true).compileToText (takes typeName) = .ok noted ∧
      ((Session.start .default).annotating false).compileToText (takes typeName) = .ok bare := by
  have hlines : ∃ lines,
      ((Session.start .default).annotating true).compile (takes typeName) = .ok lines := by
    refine exists_lowerProgram.mpr (List.forall_mem_singleton.mpr ⟨by simp, ?_, ?_⟩)
    · simp [Fragment.locals, Instruction.target?]
    · refine List.forall_mem_singleton.mpr ⟨List.forall_mem_nil _, ?_, ?_⟩
      · intro name hname
        cases hname
      · intro target function args hcall
        cases hcall
  obtain ⟨lines, hlines⟩ := hlines
  refine ⟨assembly lines, assembly (Line.code lines), ?_, ?_⟩
  · rw [Session.compileToText, hlines]
    rfl
  · rw [Session.compileToText, compile_plain, hlines]
    rfl

theorem compileToText_annotated_takes : ∃ noted bare,
    (Session.start .default).PlainNames (takes "Node") ∧
      ((Session.start .default).annotating true).compileToText (takes "Node") = .ok noted ∧
      ((Session.start .default).annotating false).compileToText (takes "Node") = .ok bare ∧
      codeLines noted = splitLines bare := by
  obtain ⟨noted, bare, hnoted, hbare⟩ := compiles_takes "Node"
  have hnotes : ∀ frag ∈ (takes "Node").fragments, ∀ inst ∈ frag.body, ∀ name,
      inst.note? = some name → OneLine name := by
    simp +decide
  exact ⟨noted, bare, plainNames_takes "Node", hnoted, hbare,
    ((compileToText_annotated (plainNames_takes "Node")).2 noted bare hnoted hbare).2 hnotes⟩

/-- A type name in two lines puts the second one among the code. -/
theorem compileToText_annotated_takes_lines : ¬ ∀ (s : Session) (program : Program),
    s.PlainNames program →
    (∀ fault, (s.annotating true).compileToText program = .error fault ↔
      (s.annotating false).compileToText program = .error fault) ∧
    ∀ noted bare, (s.annotating true).compileToText program = .ok noted →
      (s.annotating false).compileToText program = .ok bare →
      codeLines noted = splitLines bare := by
  intro h
  have hnames := plainNames_takes "A\nret"
  obtain ⟨noted, bare, hnoted, hbare⟩ := compiles_takes "A\nret"
  have hcontained := (codeLines_eq_iff hnames hnoted hbare).mp
    ((h _ _ hnames).2 noted bare hnoted hbare) _ List.mem_cons_self _ List.mem_cons_self
  exact absurd hcontained (by decide)

end A64Lowering
