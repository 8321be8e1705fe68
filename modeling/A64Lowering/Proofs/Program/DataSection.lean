import Mathlib
import A64Lowering.Proofs.Program.Separate
import A64Lowering.Proofs.Symbol.Globals

/-! # The data section of a program

* `Decimal.Spells`: a literal is a numeral of a number. `Variable.StartsAt`: the word that a
  variable starts with, by its type and its literal. `startsAt_iff`: there is one such word.
* `Line.opens?`, `Line.within`: the directives that open a section, and the lines of a text that
  come to lie in one. `within_lowerProgram`: what comes to lie in the data section of a program.
* `SymbolTable.Words`: the names and the words of the global variables, in name order.
* `data_section_exact`: the data section holds these and nothing else, and only the last binding of
  each global name shows in it. -/
namespace A64Lowering
set_option autoImplicit false

open A64 Ir

/-! ## Literals -/

namespace Decimal

/-- One or more digits that stand for `n`. -/
def Digits (cs : List Char) (n : ℕ) : Prop :=
  cs ≠ [] ∧ (∀ c ∈ cs, c.isDigit = true) ∧ Nat.ofDigitChars 10 cs 0 = n

/-- A numeral of `n` in decimal digits, with at most one sign. -/
inductive Spells : List Char → ℤ → Prop where
  | plain {cs : List Char} {n : ℕ} (h : Digits cs n) : Spells cs n
  | plus {cs : List Char} {n : ℕ} (h : Digits cs n) : Spells ('+' :: cs) n
  | minus {cs : List Char} {n : ℕ} (h : Digits cs n) : Spells ('-' :: cs) (-n)

theorem digits_iff {cs : List Char} {n : ℕ} : Digits cs n ↔ nat? cs = some n := by
  simp [Digits, nat?, and_assoc]

theorem spells_iff {cs : List Char} {n : ℤ} : Spells cs n ↔ signed? cs = some n := by
  constructor
  · intro h
    cases h with
    | @plain _ n h =>
      rw [signed?]
      · rw [digits_iff.mp h]; rfl
      · rintro cs rfl
        exact absurd (h.2.1 '-' List.mem_cons_self) (by decide)
      · rintro cs rfl
        exact absurd (h.2.1 '+' List.mem_cons_self) (by decide)
    | plus h => rw [signed?, digits_iff.mp h]; rfl
    | minus h => rw [signed?, digits_iff.mp h]; rfl
  · intro h
    unfold signed? at h
    split at h
    · next digits =>
      cases hn : nat? digits with
      | none => rw [hn] at h; cases h
      | some n => rw [hn] at h; cases h; exact .minus (digits_iff.mpr hn)
    · obtain ⟨n, hn, rfl⟩ := Option.map_eq_some_iff.mp h
      exact .plus (digits_iff.mpr hn)
    · obtain ⟨n, hn, rfl⟩ := Option.map_eq_some_iff.mp h
      exact .plain (digits_iff.mpr hn)

end Decimal

/-- The number is in the range of signed words. -/
def FitsWord (n : ℤ) : Prop := -2 ^ 63 ≤ n ∧ n ≤ 2 ^ 63 - 1

/-- The word that a variable starts with. -/
inductive Variable.StartsAt (v : Variable) : ℤ → Prop where
  | truth (hty : v.ty = .bool) (hvalue : v.value = some "true") : StartsAt v 1
  | numeral {literal : String} {n : ℤ} (hvalue : v.value = some literal)
      (hspells : Decimal.Spells literal.toList n) (hfits : FitsWord n) : StartsAt v n
  | unread {literal : String} (hvalue : v.value = some literal)
      (htruth : ¬ (v.ty = .bool ∧ literal = "true"))
      (hnumeral : ∀ n, Decimal.Spells literal.toList n → ¬ FitsWord n) : StartsAt v 0
  | missing (hvalue : v.value = none) : StartsAt v 0

theorem fitsWord_toInt (w : Int64) : FitsWord w.toInt := by
  have hlow := w.le_toInt
  have hhigh := w.toInt_lt
  exact ⟨by omega, by omega⟩

theorem exists_word {n : ℤ} (h : FitsWord n) : ∃ w : Int64, w.toInt = n := by
  refine ⟨.ofInt n, Int64.toInt_ofInt_of_le h.1 ?_⟩
  have := h.2
  omega

/-- What is read of a literal is the word that the literal is a numeral of. -/
theorem read_eq_some {cs : List Char} {w : Int64} :
    (Decimal.signed? cs).bind Word.int64? = some w ↔ Decimal.Spells cs w.toInt := by
  constructor
  · intro h
    obtain ⟨n, hn, hw⟩ := Option.bind_eq_some_iff.mp h
    have hfits : FitsWord n := by
      rw [Word.int64?, Option.ite_none_right_eq_some] at hw
      obtain ⟨⟨hlow, hhigh⟩, -⟩ := hw
      exact ⟨by omega, by omega⟩
    obtain ⟨w', rfl⟩ := exists_word hfits
    rw [Word.int64?_toInt] at hw
    cases hw
    exact Decimal.spells_iff.mpr hn
  · intro h
    rw [Decimal.spells_iff.mp h, Option.bind_some, Word.int64?_toInt]

theorem read_eq_none {cs : List Char} :
    (Decimal.signed? cs).bind Word.int64? = none ↔ ∀ n, Decimal.Spells cs n → ¬ FitsWord n := by
  rw [Option.eq_none_iff_forall_ne_some]
  constructor
  · intro h n hspells hfits
    obtain ⟨w, rfl⟩ := exists_word hfits
    exact h w (read_eq_some.mpr hspells)
  · exact fun h w hw => h w.toInt (read_eq_some.mp hw) (fitsWord_toInt w)

theorem startsAt_initialValue (v : Variable) : v.StartsAt (initialValue v).toInt := by
  cases hvalue : v.value with
  | none =>
    rw [initialValue, hvalue]
    exact .missing hvalue
  | some literal =>
    rw [initialValue, hvalue]
    dsimp only
    rw [literalValue]
    split
    · next htruth => exact .truth htruth.1 (htruth.2 ▸ hvalue)
    · next htruth =>
      cases hread : (Decimal.signed? literal.toList).bind Word.int64? with
      | none => exact .unread hvalue htruth (read_eq_none.mp hread)
      | some w => exact .numeral hvalue (read_eq_some.mp hread) (fitsWord_toInt w)

theorem Variable.StartsAt.eq {v : Variable} {n : ℤ} (h : v.StartsAt n) :
    (initialValue v).toInt = n := by
  cases h with
  | truth hty hvalue => simp [initialValue, hvalue, literalValue, hty]
  | @numeral literal n hvalue hspells hfits =>
    obtain ⟨w, rfl⟩ := exists_word hfits
    have hread := read_eq_some.mpr hspells
    have htruth : ¬ (v.ty = .bool ∧ literal = "true") := by
      rintro ⟨-, rfl⟩
      exact absurd hread nofun
    simp only [initialValue, hvalue, literalValue, if_neg htruth, hread, Option.getD_some]
  | unread hvalue htruth hnumeral =>
    simp [initialValue, hvalue, literalValue, htruth, read_eq_none.mpr hnumeral]
  | missing hvalue => simp [initialValue, hvalue]

theorem startsAt_iff {v : Variable} {n : ℤ} : v.StartsAt n ↔ (initialValue v).toInt = n :=
  ⟨Variable.StartsAt.eq, fun h => h ▸ startsAt_initialValue v⟩

/-- The numeral of every word is read as that word. -/
theorem Variable.startsAt_ofInt {v : Variable} {w : Int64}
    (hvalue : v.value = some (Decimal.ofInt w.toInt)) : v.StartsAt w.toInt :=
  .numeral hvalue (Decimal.spells_iff.mpr (Decimal.signed?_ofInt _)) (fitsWord_toInt w)

/-! ## Sections of a text -/

namespace A64

/-- The section that a line opens, named by its directive. -/
def Line.opens? : Line → Option String
  | .directive text =>
    if text ∈ [".data", ".text"] ∨ ".section ".toList <+: text.toList then some text else none
  | .inst _ | .label _ | .comment _ => none

/-- The lines that come to lie in the section that `opener` opens, of a text that starts inside it
or not. -/
def Line.within (opener : String) : (inside : Bool) → List Line → List Line
  | _, [] => []
  | inside, line :: rest =>
    match line.opens? with
    | some text => within opener (text == opener) rest
    | none => if inside then line :: within opener inside rest else within opener inside rest

theorem Line.within_append_of_none {opener : String} {inside : Bool} {front : List Line}
    (h : ∀ line ∈ front, line.opens? = none) (rest : List Line) :
    within opener inside (front ++ rest)
      = (if inside then front else []) ++ within opener inside rest := by
  induction front with
  | nil => cases inside <;> rfl
  | cons line front ih =>
    obtain ⟨hline, hfront⟩ := List.forall_mem_cons.mp h
    rw [List.cons_append, within, hline, ih hfront]
    cases inside <;> rfl

theorem Line.within_cons_of_some {opener opened : String} {line : Line}
    (h : line.opens? = some opened) (inside : Bool) (rest : List Line) :
    within opener inside (line :: rest) = within opener (opened == opener) rest := by
  rw [within, h]

/-- The lines in the data section. -/
def Line.data (text : List Line) : List Line := within ".data" false text

/-- A directive that parts early from those that open a section opens none. -/
theorem Line.opens?_append (front : String)
    (h : ∀ opener ∈ [".data", ".text", ".section "],
      ¬ opener.toList <+: front.toList ∧ ¬ front.toList <+: opener.toList) (rest : String) :
    (Line.directive (front ++ rest)).opens? = none := by
  have hparts : ∀ opener ∈ [".data", ".text", ".section "],
      ¬ opener.toList <+: (front ++ rest).toList := by
    intro opener hopener hprefix
    have hfront : front.toList <+: (front ++ rest).toList := by
      rw [String.toList_append]
      exact List.prefix_append _ _
    rcases List.prefix_or_prefix_of_prefix hprefix hfront with hin | hout
    · exact (h opener hopener).1 hin
    · exact (h opener hopener).2 hout
  rw [opens?, if_neg]
  rintro (hmem | hsection)
  · -- a text that is an opener starts with one
    have hself : (front ++ rest).toList <+: (front ++ rest).toList := List.prefix_rfl
    rcases List.mem_pair.mp hmem with heq | heq
    · exact hparts ".data" (by simp) (heq ▸ hself)
    · exact hparts ".text" (by simp) (heq ▸ hself)
  · exact hparts ".section " (by simp) hsection

end A64

section Code
variable {s : Site} {body : List Instruction} {lines : List Line}

theorem opens?_of_mem_annotation {inst : Instruction} {line : Line}
    (h : line ∈ s.annotation inst) : line.opens? = none := by
  obtain ⟨text, rfl⟩ := Site.comment_of_annotationLine h
  rfl

theorem opens?_of_mem_prints {inst : Instruction} (h : s.Prints inst lines) {line : Line}
    (hline : line ∈ lines) : line.opens? = none := by
  cases h with
  | label name =>
    rw [List.mem_singleton.mp hline]
    rfl
  | code _ =>
    obtain ⟨i, -, rfl⟩ := List.mem_map.mp hline
    rfl

theorem opens?_of_mem_lowers (h : s.Lowers body lines) {line : Line} (hline : line ∈ lines) :
    line.opens? = none := by
  induction h with
  | nil => cases hline
  | cons hinst _ ih =>
    simp only [List.mem_append] at hline
    rcases hline with (hcomment | hprints) | hrest
    · exact opens?_of_mem_annotation hcomment
    · exact opens?_of_mem_prints hinst hprints
    · exact ih hrest

/-- The code of a function opens no section. -/
theorem opens?_of_mem_whole (h : s.Lowers body lines) {line : Line} (hline : line ∈ s.whole lines) :
    line.opens? = none := by
  have htype := Line.opens?_append ".type " (by decide) (s.function ++ ",%function")
  have hglobal := Line.opens?_append ".global " (by decide) s.function
  have hsize := Line.opens?_append ".size " (by decide)
    (s.function ++ ", (. - " ++ s.function ++ ")")
  have hcode : ∀ code : List Inst, line ∈ code.map Line.inst → line.opens? = none := by
    intro code hmem
    obtain ⟨i, -, rfl⟩ := List.mem_map.mp hmem
    rfl
  simp only [Site.whole, heading, ending, List.mem_append, List.mem_cons, List.not_mem_nil,
    or_false, String.append_assoc] at hline htype hsize
  rcases hline with (((rfl | rfl | rfl | rfl) | hprologue) | hbody) | (rfl | hepilogue) | rfl
  · exact htype
  · exact hglobal
  · rfl
  · rfl
  · exact hcode _ hprologue
  · exact opens?_of_mem_lowers h hbody
  · rfl
  · exact hcode _ hepilogue
  · exact hsize

end Code

/-! ## The text of a program -/

section Programs
variable {settings : Settings} {symbols : SymbolTable} {program : Program} {text : List Line}

theorem opens?_of_mem_codes {globals : List String} {fragments : List Fragment}
    {codes : List (List Line)}
    (h : fragments.mapM (fragmentLines settings globals .temporaries) = .ok codes) {line : Line}
    (hline : line ∈ codes.flatten) : line.opens? = none := by
  obtain ⟨code, hcode, hmem⟩ := List.mem_flatten.mp hline
  obtain ⟨frag, -, hfrag⟩ := exists_of_forall₂ (mapM_eq_ok.mp h) hcode
  obtain ⟨site, lines, -, hlowers, rfl⟩ := whole_of_fragmentLines hfrag
  exact opens?_of_mem_whole hlowers hmem

theorem opens?_of_mem_dataLines {vars : List (String × Variable)} {line : Line}
    (h : line ∈ vars.flatMap fun (name, v) => dataLines name v) : line.opens? = none := by
  obtain ⟨⟨name, v⟩, -, hline⟩ := List.mem_flatMap.mp h
  rcases List.mem_pair.mp hline with rfl | rfl
  · rfl
  · exact Line.opens?_append ".quad " (by decide) _

theorem within_dataSection (vars : List (String × Variable)) (rest : List Line) :
    Line.within ".data" false (dataSection vars ++ rest)
      = (dataSection vars).tail ++ Line.within ".data" (!vars.isEmpty) rest := by
  have hdata : (Line.directive ".data").opens? = some ".data" := by decide
  have halign : (Line.directive ".p2align 3").opens? = none := by decide
  rw [dataSection]
  cases hempty : vars.isEmpty with
  | true => rfl
  | false =>
    have hlines : ∀ line ∈ Line.directive ".p2align 3" :: vars.flatMap fun (name, v) =>
        dataLines name v, line.opens? = none :=
      List.forall_mem_cons.mpr ⟨halign, fun _ => opens?_of_mem_dataLines⟩
    rw [if_neg Bool.false_ne_true, List.cons_append, List.cons_append,
      Line.within_cons_of_some hdata, List.singleton_append, Line.within_append_of_none hlines]
    rfl

/-- The format and the code are in sections of their own. -/
theorem within_formatAndCode {code : List Line} (h : ∀ line ∈ code, line.opens? = none)
    (inside : Bool) :
    Line.within ".data" inside ([.directive ".section .rodata", .label intFormatLabel,
      .directive ".asciz \"%ld\\n\"", .directive ".text"] ++ code) = [] := by
  have hformat : (Line.directive ".section .rodata").opens? = some ".section .rodata" := by decide
  have hasciz : (Line.directive ".asciz \"%ld\\n\"").opens? = none := by decide
  have htext : (Line.directive ".text").opens? = some ".text" := by decide
  have hlines : ∀ line ∈ [Line.label intFormatLabel, .directive ".asciz \"%ld\\n\""],
      line.opens? = none :=
    List.forall_mem_cons.mpr ⟨rfl, List.forall_mem_singleton.mpr hasciz⟩
  have hcode : Line.within ".data" false (code ++ []) = [] := Line.within_append_of_none h []
  calc Line.within ".data" inside _
      = Line.within ".data" false ([.label intFormatLabel, .directive ".asciz \"%ld\\n\""]
          ++ .directive ".text" :: code) := Line.within_cons_of_some hformat _ _
    _ = Line.within ".data" false (.directive ".text" :: code) :=
        Line.within_append_of_none hlines _
    _ = Line.within ".data" false code := Line.within_cons_of_some htext _ _
    _ = [] := by rwa [List.append_nil] at hcode

/-- The data section of the text is what `dataSection` puts behind the directive that opens it. -/
theorem data_lowerProgram (h : lowerProgram settings symbols program = .ok text) :
    Line.data text = (dataSection symbols.globalVariables).tail := by
  obtain ⟨codes, hcodes, rfl⟩ := lowerProgram_eq_ok h
  have harch : ∀ line ∈ [Line.directive (".arch " ++ settings.arch)], line.opens? = none :=
    List.forall_mem_singleton.mpr (Line.opens?_append ".arch " (by decide) _)
  rw [Line.data, fileHeading, List.append_assoc, List.append_assoc,
    Line.within_append_of_none harch, within_dataSection,
    within_formatAndCode fun _ => opens?_of_mem_codes hcodes, List.append_nil]
  rfl

theorem opener_mem_dataSection {vars : List (String × Variable)} :
    .directive ".data" ∈ dataSection vars ↔ vars ≠ [] := by
  rw [dataSection, ← List.isEmpty_eq_false_iff]
  cases vars.isEmpty <;> simp

theorem globalVariables_ne_nil :
    symbols.globalVariables ≠ [] ↔ ∃ name, symbols.BindsVariable name := by
  constructor
  · intro h
    obtain ⟨⟨name, v⟩, hmem⟩ := List.exists_mem_of_ne_nil _ h
    exact ⟨name, v, SymbolTable.mem_globalVariables.mp hmem⟩
  · rintro ⟨name, v, hbound⟩
    exact List.ne_nil_of_mem (SymbolTable.mem_globalVariables.mpr hbound)

theorem opener_mem_lowerProgram (h : lowerProgram settings symbols program = .ok text) :
    .directive ".data" ∈ text ↔ ∃ name, symbols.BindsVariable name := by
  obtain ⟨codes, hcodes, rfl⟩ := lowerProgram_eq_ok h
  have harch : Line.directive ".data" ≠ .directive (".arch " ++ settings.arch) := by
    intro heq
    have hopens := Line.opens?_append ".arch " (by decide) settings.arch
    rw [← heq] at hopens
    exact absurd hopens (by decide)
  have hcode : Line.directive ".data" ∉ codes.flatten := fun hmem =>
    absurd (opens?_of_mem_codes hcodes hmem) (by decide)
  rw [← globalVariables_ne_nil, ← opener_mem_dataSection, fileHeading]
  simp [harch, hcode]

end Programs

/-! ## The words of a table -/

namespace SymbolTable
variable {t u : SymbolTable}

/-- The names of the global variables and the words that they start with, in name order. -/
structure Words (t : SymbolTable) (words : List (String × ℤ)) : Prop where
  ascending : words.Pairwise fun a b => a.1 < b.1
  mem_iff : ∀ name n, (name, n) ∈ words ↔
    ∃ v, t.bound? globalScope name = some (.var v) ∧ v.StartsAt n

def words (t : SymbolTable) : List (String × ℤ) :=
  t.globalVariables.map fun (name, v) => (name, (initialValue v).toInt)

theorem words_words (t : SymbolTable) : t.Words t.words where
  ascending := List.pairwise_map.mpr t.sorted_globalVariables
  mem_iff := by
    intro name n
    simp only [words, List.mem_map, Prod.exists, Prod.mk.injEq, startsAt_iff, ← mem_globalVariables]
    constructor
    · rintro ⟨_, v, hmem, rfl, hn⟩
      exact ⟨v, hmem, hn⟩
    · rintro ⟨v, hmem, hn⟩
      exact ⟨name, v, hmem, rfl, hn⟩

theorem declaresGlobal_iff {name : String} {ty : Ty} {value : Option String} :
    t.DeclaresGlobal name ty value ↔ t.globalDatum? name = some ⟨ty, value⟩ := by
  rw [DeclaresGlobal, globalDatum?, Option.bind_eq_some_iff]
  constructor
  · rintro ⟨v, hbound, rfl, rfl⟩
    exact ⟨.var v, hbound, rfl⟩
  · rintro ⟨entry, hbound, hdatum⟩
    obtain ⟨v, hv, hdatum⟩ := Option.map_eq_some_iff.mp hdatum
    rw [Entry.var?_eq_some] at hv
    subst hv
    cases hdatum
    exact ⟨v, hbound, rfl, rfl⟩

theorem sameVariables_of_latest {bindings others : List (String × Option Datum)}
    (ht : History bindings t) (hu : History others u) (h : latest bindings = latest others) :
    t.SameVariables u := by
  intro name ty value
  rw [declaresGlobal_iff, declaresGlobal_iff, globalDatum?_of_history ht,
    globalDatum?_of_history hu, h]

end SymbolTable

/-- The lines of one word. -/
def wordLines (word : String × ℤ) : List Line :=
  [.label word.1, .directive (".quad " ++ Decimal.ofInt word.2)]

theorem tail_dataSection (t : SymbolTable) :
    (dataSection t.globalVariables).tail = if t.words = [] then []
      else .directive ".p2align 3" :: t.words.flatMap wordLines := by
  have hempty : t.words = [] ↔ t.globalVariables.isEmpty = true := by
    rw [SymbolTable.words, List.map_eq_nil_iff, List.isEmpty_iff]
  have hlines : t.words.flatMap wordLines
      = t.globalVariables.flatMap fun (name, v) => dataLines name v := by
    rw [SymbolTable.words, List.flatMap_map]
    rfl
  rw [dataSection, hlines]
  by_cases h : t.globalVariables.isEmpty = true
  · rw [if_pos h, if_pos (hempty.mpr h), List.tail_nil]
  · rw [if_neg h, if_neg (mt hempty.mp h)]
    rfl

theorem data_congr {symbols others : SymbolTable} (h : symbols.SameVariables others)
    {settings settings' : Settings} {program program' : Program} {text text' : List Line}
    (htext : lowerProgram settings symbols program = .ok text)
    (htext' : lowerProgram settings' others program' = .ok text') :
    Line.data text' = Line.data text := by
  rw [data_lowerProgram htext, data_lowerProgram htext',
    dataSection_congr (SymbolTable.sameVariables_iff.mp h)]

section Exact
open SymbolTable

/-- A program has a data section exactly if there are global variables. Behind its alignment it has
a label and a word for each of them, by name, and a literal that is a numeral of the word stands
there as it is. Only the type and the literal of each variable show in it, however the table came
about: two histories in which the same names are last bound to the same data, as when names that are
bound once are bound in another order, give the same data section. -/
theorem data_section_exact {settings : Settings} {symbols : SymbolTable} {program : Program}
    {text : List Line} (h : lowerProgram settings symbols program = .ok text) :
    (.directive ".data" ∈ text ↔ ∃ name, symbols.BindsVariable name) ∧
    (∃ words, symbols.Words words ∧ Line.data text = if words = [] then []
      else .directive ".p2align 3" :: words.flatMap wordLines) ∧
    (∀ name v (w : Int64), symbols.bound? globalScope name = some (.var v) →
      v.value = some (Decimal.ofInt w.toInt) →
      [.label name, .directive (".quad " ++ Decimal.ofInt w.toInt)] <:+: Line.data text) ∧
    ∀ settings' others program' text', lowerProgram settings' others program' = .ok text' →
      (symbols.SameVariables others → Line.data text' = Line.data text) ∧
      ∀ bindings bindings', History bindings symbols → History bindings' others →
        latest bindings = latest bindings' ∨
          ((bindings.map Prod.fst).Nodup ∧ (bindings'.map Prod.fst).Nodup ∧
            (variableBindings bindings).Perm (variableBindings bindings')) →
        Line.data text' = Line.data text := by
  have hdata : Line.data text = _ := (data_lowerProgram h).trans (tail_dataSection symbols)
  refine ⟨opener_mem_lowerProgram h, ⟨symbols.words, symbols.words_words, hdata⟩, ?_, ?_⟩
  · intro name v w hbound hvalue
    have hmem : (name, w.toInt) ∈ symbols.words :=
      (symbols.words_words.mem_iff _ _).mpr ⟨v, hbound, Variable.startsAt_ofInt hvalue⟩
    rw [hdata, if_neg (List.ne_nil_of_mem hmem)]
    have hlines : wordLines (name, w.toInt) <:+: symbols.words.flatMap wordLines :=
      List.infix_of_mem_flatten (List.mem_map_of_mem hmem)
    exact hlines.trans (List.suffix_cons _ _).isInfix
  · intro settings' others program' text' h'
    refine ⟨fun hsame => data_congr hsame h h', ?_⟩
    intro bindings bindings' hhistory hhistory' hlatest
    refine data_congr (sameVariables_of_latest hhistory hhistory' ?_) h h'
    rcases hlatest with heq | ⟨hdistinct, hdistinct', hperm⟩
    · exact heq
    · exact latest_eq_of_perm hdistinct hdistinct' hperm

def reader : Program := ⟨[⟨"f", [], [.loadGlobal ⟨0⟩ "low", .ret (some ⟨0⟩)]⟩]⟩

def lowest (r : VReg) : Entry := .var ⟨.int, some "-9223372036854775808", r, none⟩

def raised (r : VReg) : Entry := .var ⟨.bool, some "true", r, none⟩

def lowFirst : SymbolTable :=
  [.insert globalScope "low" (lowest ⟨0⟩), .insert globalScope "flag" (raised ⟨1⟩)].foldl Edit.apply
    initial

/-- The same variables the other way round, beside a function with a variable of its own. -/
def flagFirst : SymbolTable :=
  [.pushScope globalScope "f", .insert globalScope "f" (.function .int 1),
    .insert globalScope "flag" (raised ⟨7⟩), .declare 1 "low" .bool ⟨8⟩,
    .insert globalScope "low" (lowest ⟨9⟩)].foldl Edit.apply initial

theorem data_section_exact_reader : ∃ text text',
    lowerProgram .default lowFirst reader = .ok text ∧
      lowerProgram .default flagFirst reader = .ok text' ∧ Line.data text' = Line.data text ∧
      Line.data text = [.directive ".p2align 3", .label "flag", .directive ".quad 1", .label "low",
        .directive ".quad -9223372036854775808"] := by
  have hlow : History [("low", (lowest ⟨0⟩).datum?), ("flag", (raised ⟨1⟩).datum?)] lowFirst :=
    (History.initial.edit (.insert globalScope "low" (lowest ⟨0⟩)) trivial).edit
      (.insert globalScope "flag" (raised ⟨1⟩)) trivial
  have hflag : History [("f", none), ("flag", (raised ⟨7⟩).datum?), ("low", (lowest ⟨9⟩).datum?)]
      flagFirst :=
    ((((History.initial.edit (.pushScope globalScope "f") rfl).edit
      (.insert globalScope "f" (.function .int 1)) trivial).edit
      (.insert globalScope "flag" (raised ⟨7⟩)) trivial).edit
      (.declare 1 "low" .bool ⟨8⟩) trivial).edit (.insert globalScope "low" (lowest ⟨9⟩)) trivial
  have htext : lowerProgram .default lowFirst reader = .ok _ := rfl
  have htext' : lowerProgram .default flagFirst reader = .ok _ := rfl
  obtain ⟨-, -, -, hothers⟩ := data_section_exact htext
  refine ⟨_, _, htext, htext', ?_, rfl⟩
  exact (hothers _ _ _ _ htext').2 _ _ hlow hflag (.inr ⟨by decide, by decide, by decide⟩)

end Exact
end A64Lowering
