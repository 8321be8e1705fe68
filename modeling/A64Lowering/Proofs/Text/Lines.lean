import Mathlib
import A64Lowering.A64.Text
import A64Lowering.Text.Blank

/-! # The lines of a text

* `splitLines`: a text split at its line feeds. `splitLines_joinLines`: of lines put together it
  gives the lines of each.
* `OneLine`: a text without a line feed.
* `IsComment`, `codeLines`: comment lines, and the lines that are none.
* `A64.Line.Quiet`: no line that is printed for this one is a comment. `quiet_inst`,
  `quiet_directive`, `quiet_label`: so it is for all lines but comments. -/
namespace A64Lowering
set_option autoImplicit false

namespace Text

def splitLines (text : String) : List String := (text.toList.splitOn '\n').map String.ofList

def OneLine (text : String) : Prop := '\n' ∉ text.toList

instance : DecidablePred OneLine := fun text => inferInstanceAs (Decidable ('\n' ∉ text.toList))

def IsComment (line : String) : Prop := ['\t', '/', '/'] <+: line.toList

instance : DecidablePred IsComment :=
  fun line => inferInstanceAs (Decidable (['\t', '/', '/'] <+: line.toList))

def codeLines (text : String) : List String := (splitLines text).filter fun line => ¬ IsComment line

section Lines
variable {text first rest : String}

theorem splitLines_append_lineFeed (first rest : String) :
    splitLines (first ++ "\n" ++ rest) = splitLines first ++ splitLines rest := by
  have hlist : (first ++ "\n" ++ rest).toList = first.toList ++ '\n' :: rest.toList := by
    simp [String.toList_append]
  rw [splitLines, hlist, List.splitOn_append_cons_self, List.map_append]
  rfl

theorem splitLines_joinLines (lines : List String) :
    splitLines (joinLines lines) = lines.flatMap splitLines ++ [""] := by
  induction lines with
  | nil => rfl
  | cons line lines ih =>
    rw [joinLines_cons, splitLines_append_lineFeed, ih, List.flatMap_cons, List.append_assoc]

theorem splitLines_of_oneLine (h : OneLine text) : splitLines text = [text] := by
  rw [splitLines, List.splitOn_eq_singleton h, List.map_singleton, String.ofList_toList]

@[simp] theorem oneLine_append : OneLine (first ++ rest) ↔ OneLine first ∧ OneLine rest := by
  simp [OneLine, String.toList_append]

theorem oneLine_ofNat (n : ℕ) : OneLine (Decimal.ofNat n) := by
  intro hmem
  exact absurd (Decimal.isDigit_of_mem_ofNat hmem) (by decide)

theorem oneLine_ofInt (n : ℤ) : OneLine (Decimal.ofInt n) := by
  cases n with
  | ofNat n => exact oneLine_ofNat n
  | negSucc n => exact oneLine_append.mpr ⟨by decide, oneLine_ofNat _⟩

theorem oneLine_commaSeparated : ∀ {texts : List String}, (∀ text ∈ texts, OneLine text) →
    OneLine (commaSeparated texts)
  | [], _ => by decide
  | [text], h => h text List.mem_cons_self
  | text :: other :: rest, h => by
    rw [commaSeparated]
    · obtain ⟨htext, hrest⟩ := List.forall_mem_cons.mp h
      simp only [oneLine_append]
      exact ⟨⟨htext, by decide⟩, oneLine_commaSeparated hrest⟩
    · exact nofun

theorem OneLine.trim (h : OneLine text) : OneLine (trim text) := by
  have hsub : trimChars text.toList ⊆ text.toList := by
    intro c hc
    rw [trimChars, List.mem_reverse] at hc
    exact List.dropWhile_subset _ (List.mem_reverse.mp (List.dropWhile_subset _ hc))
  rw [OneLine, Text.trim, String.toList_ofList]
  exact fun hmem => h (hsub hmem)

/-- The text starts with a character that is not a slash. -/
def Unslashed (text : String) : Prop := text.toList.head?.any (· ≠ '/')

instance : DecidablePred Unslashed :=
  fun text => inferInstanceAs (Decidable (text.toList.head?.any (· ≠ '/')))

theorem Unslashed.append (h : Unslashed first) (rest : String) : Unslashed (first ++ rest) := by
  obtain ⟨c, hc, hslash⟩ := (Option.any_eq_true ..).mp h
  rw [Unslashed, String.toList_append, List.head?_append, hc]
  exact hslash

theorem not_isComment_tab (h : Unslashed text) : ¬ IsComment ("\t" ++ text) := by
  rintro ⟨rest, hrest⟩
  have hlist : ("\t" ++ text).toList = '\t' :: text.toList := by simp [String.toList_append]
  rw [hlist, List.cons_append, List.cons.injEq] at hrest
  rw [Unslashed, ← hrest.2] at h
  exact absurd h Bool.false_ne_true

end Lines

/-- A name without line feeds that does not start with a tab. -/
structure Plain (name : String) : Prop where
  oneLine : OneLine name
  start : name.toList.head? ≠ some '\t'

instance : DecidablePred Plain := fun name =>
  decidable_of_iff (OneLine name ∧ name.toList.head? ≠ some '\t')
    ⟨fun h => ⟨h.1, h.2⟩, fun h => ⟨h.1, h.2⟩⟩

end Text

/-! ## Assembly lines -/

namespace A64
open Text

theorem oneLine_reg (r : Reg) : OneLine r.text := by
  cases r with
  | x n => exact oneLine_append.mpr ⟨by decide, oneLine_ofNat _⟩
  | sp | xzr => decide

theorem oneLine_cond (c : Cond) : OneLine c.text := by cases c <;> decide

theorem oneLine_address (base : Reg) (offset : Int32) : OneLine (address base offset) := by
  have hclose : OneLine "]" := by decide
  have hopen : OneLine "[" := by decide
  have hcomma : OneLine ", #" := by decide
  rw [address]
  split
  · simp [hopen, hclose, oneLine_reg]
  · simp [hopen, hclose, hcomma, oneLine_reg, oneLine_ofInt]

theorem oneLine_withOperands {mnemonic : String} {operands : List String} (h : OneLine mnemonic)
    (hoperands : ∀ operand ∈ operands, OneLine operand) :
    OneLine (withOperands mnemonic operands) := by
  have hafter : ∀ rest : List String, (∀ operand ∈ rest, OneLine operand) →
      OneLine (withOperands.operandsAfter rest) := by
    intro rest hrest
    induction rest with
    | nil => decide
    | cons operand rest ih =>
      obtain ⟨hoperand, hothers⟩ := List.forall_mem_cons.mp hrest
      rw [withOperands.operandsAfter, oneLine_append, oneLine_append]
      exact ⟨⟨by decide, hoperand⟩, ih hothers⟩
  cases operands with
  | nil => exact oneLine_append.mpr ⟨by decide, h⟩
  | cons first rest =>
    obtain ⟨hfirst, hrest⟩ := List.forall_mem_cons.mp hoperands
    simp only [withOperands, oneLine_append]
    exact ⟨⟨⟨⟨by decide, h⟩, by decide⟩, hfirst⟩, hafter rest hrest⟩

theorem not_isComment_withOperands {mnemonic : String} (h : Unslashed mnemonic)
    (operands : List String) : ¬ IsComment (withOperands mnemonic operands) := by
  cases operands with
  | nil => exact not_isComment_tab h
  | cons first rest =>
    have hassoc : withOperands mnemonic (first :: rest)
        = "\t" ++ (mnemonic ++ (" " ++ first ++ withOperands.operandsAfter rest)) := by
      simp only [withOperands, String.append_assoc]
    rw [hassoc]
    exact not_isComment_tab (h.append _)

def Inst.name? : Inst → Option String
  | .adrp _ name | .addLo12 _ _ name | .b name | .cbz _ name | .cbnz _ name | .bl name => some name
  | _ => none

/-- No line that is printed is a comment. -/
def Line.Quiet (l : Line) : Prop := ∀ line ∈ splitLines l.text, ¬ IsComment line

section Quiet
variable {name text : String} {l : Line}

theorem Line.quiet_of_oneLine (h : OneLine l.text) (hcomment : ¬ IsComment l.text) : l.Quiet := by
  rw [Line.Quiet, splitLines_of_oneLine h]
  exact List.forall_mem_singleton.mpr hcomment

theorem quiet_withOperands {mnemonic : String} {operands : List String} (h : OneLine mnemonic)
    (hstart : Unslashed mnemonic) (hoperands : ∀ operand ∈ operands, OneLine operand) :
    ∀ line ∈ splitLines (withOperands mnemonic operands), ¬ IsComment line := by
  rw [splitLines_of_oneLine (oneLine_withOperands h hoperands)]
  exact List.forall_mem_singleton.mpr (not_isComment_withOperands hstart _)

theorem Line.quiet_inst {i : Inst} (h : ∀ name ∈ i.name?, OneLine name) : (Line.inst i).Quiet := by
  have hequals : OneLine "=" := by decide
  have hlo : OneLine ":lo12:" := by decide
  have hhash : OneLine "#" := by decide
  rw [Line.Quiet, Line.text]
  cases i <;> rw [Inst.text] <;> apply quiet_withOperands <;>
    first
    | decide
    | simp_all [Inst.name?, oneLine_reg, oneLine_cond, oneLine_address, oneLine_ofNat, oneLine_ofInt]

theorem Line.quiet_directive (h : OneLine text) (hstart : Unslashed text) :
    (Line.directive text).Quiet :=
  quiet_of_oneLine (oneLine_append.mpr ⟨by decide, h⟩) (not_isComment_tab hstart)

theorem Line.quiet_label (h : Plain name) : (Line.label name).Quiet := by
  refine quiet_of_oneLine (oneLine_append.mpr ⟨h.oneLine, by decide⟩) ?_
  rintro ⟨rest, hrest⟩
  have hhead : (name ++ ":").toList.head? = some '\t' := by
    rw [show (name ++ ":") = (Line.label name).text from rfl, ← hrest]
    rfl
  rw [String.toList_append, List.head?_append] at hhead
  cases hname : name.toList.head? with
  | none => simp [hname] at hhead
  | some c => exact h.start (by simpa [hname] using hhead)

theorem isComment_comment (h : OneLine text) :
    ∀ line ∈ splitLines (Line.comment text).text, IsComment line := by
  have hslashes : OneLine "\t// " := by decide
  intro line hline
  rw [Line.text, splitLines_of_oneLine (oneLine_append.mpr ⟨hslashes, h⟩),
    List.mem_singleton] at hline
  refine ⟨' ' :: text.toList, ?_⟩
  rw [hline, String.toList_append]
  rfl

end Quiet
end A64
end A64Lowering
