import Mathlib
import A64Lowering.A64.Text

/-! # What the text of an instruction tells

* `Inst.mnemonic`, `Inst.operands`: an instruction as a mnemonic and operands. `Inst.text_eq`: that
  is what is printed. `Inst.ofForm?_form`: it is all there is to the instruction.
* `Inst.Operand.text_injective`: of the operands that one place admits, no two are printed alike. A
  place admits the operands of one `Kind`, and `Inst.operandKinds` tells the places of a mnemonic.
* `append_inj_of_stop`: where a text is cut. The mnemonic ends at the first blank, and every operand
  but the last at the first comma, since it is a register. The last operand runs to the end of the
  line, so a symbol may hold blanks and commas.
* `emitted_text_injective`: lines that are printed alike hold the same instructions. -/
namespace A64Lowering.A64
set_option autoImplicit false

/-! ## Cutting a text -/

/-- A front within `p` and a back that leaves `p` at once are the only such two parts of a text. -/
theorem append_inj_of_stop {p : Char → Bool} {front front' back back' : String}
    (hfront : ∀ c ∈ front.toList, p c) (hfront' : ∀ c ∈ front'.toList, p c)
    (hback : ∀ c ∈ back.toList.head?, ¬ p c) (hback' : ∀ c ∈ back'.toList.head?, ¬ p c)
    (h : front ++ back = front' ++ back') : front = front' ∧ back = back' := by
  have hstop : ∀ {text : String}, (∀ c ∈ text.toList.head?, ¬ p c) →
      text.toList.takeWhile p = [] := by
    intro text htext
    cases hlist : text.toList with
    | nil => rfl
    | cons c cs => exact List.takeWhile_cons_of_neg (htext c (by rw [hlist]; rfl))
  have hlists : front.toList ++ back.toList = front'.toList ++ back'.toList := by
    rw [← String.toList_append, h, String.toList_append]
  have hcut : front.toList = front'.toList := by
    have htake := congrArg (List.takeWhile p) hlists
    rwa [List.takeWhile_append_of_pos hfront, List.takeWhile_append_of_pos hfront', hstop hback,
      hstop hback', List.append_nil, List.append_nil] at htake
  rw [hcut] at hlists
  exact ⟨String.toList_inj.mp hcut, String.toList_inj.mp (List.append_cancel_left hlists)⟩

theorem ofInt_injective : Function.Injective Decimal.ofInt := by
  intro m n h
  have hread := Decimal.signed?_ofInt m
  rw [h, Decimal.signed?_ofInt] at hread
  exact (Option.some.inj hread).symm

/-! ## Registers, conditions and memory operands -/

theorem Reg.isAlphanum_text (r : Reg) : ∀ c ∈ r.text.toList, c.isAlphanum := by
  cases r with
  | x n =>
    simp only [Reg.text, String.toList_append, List.forall_mem_append]
    refine ⟨by simp, fun c hc => ?_⟩
    simp [Char.isAlphanum, Decimal.isDigit_of_mem_ofNat hc]
  | sp | xzr => simp [Reg.text]

theorem Reg.head_text (r : Reg) :
    r.text.toList.head? = some 'x' ∨ r.text.toList.head? = some 's' := by
  cases r with
  | x n => exact .inl (by simp [Reg.text, String.toList_append])
  | sp => exact .inr rfl
  | xzr => exact .inl rfl

theorem Reg.text_injective : Function.Injective Reg.text := by
  have hxzr : ∀ n : UInt8, (Reg.x n).text ≠ Reg.xzr.text := by
    intro n h
    have hnumeral : Decimal.ofNat n.toNat = "zr" := (String.append_right_inj "x").mp h
    have hz : 'z' ∈ (Decimal.ofNat n.toNat).toList := by rw [hnumeral]; decide
    exact absurd (Decimal.isDigit_of_mem_ofNat hz) (by decide)
  have hsp : ∀ n : UInt8, (Reg.x n).text ≠ Reg.sp.text := by
    intro n h
    have hhead := congrArg (fun text => text.toList.head?) h
    simp [Reg.text, String.toList_append] at hhead
  intro r r' h
  cases r <;> cases r'
  case x.x n m =>
    rw [UInt8.toNat_inj.mp (Decimal.ofNat_injective ((String.append_right_inj "x").mp h))]
  case x.sp n => exact absurd h (hsp n)
  case x.xzr n => exact absurd h (hxzr n)
  case sp.x n => exact absurd h.symm (hsp n)
  case xzr.x n => exact absurd h.symm (hxzr n)
  all_goals first | rfl | exact absurd h (by decide)

theorem Cond.text_injective : Function.Injective Cond.text := by
  intro c c' h
  cases c <;> cases c' <;> first | rfl | exact absurd h (by decide)

/-- What follows the base in a memory operand. -/
def displacement (offset : Int32) : String :=
  if offset = 0 then "]" else ", #" ++ Decimal.ofInt offset.toInt ++ "]"

theorem address_eq (base : Reg) (offset : Int32) :
    address base offset = "[" ++ (base.text ++ displacement offset) := by
  rw [address, displacement]
  split <;> simp only [String.append_assoc]

theorem not_isAlphanum_displacement (offset : Int32) :
    ∀ c ∈ (displacement offset).toList.head?, ¬ c.isAlphanum := by
  rw [displacement]
  split <;> simp [String.toList_append]

theorem displacement_injective : Function.Injective displacement := by
  have hzero : ∀ n : ℤ, "]" ≠ ", #" ++ Decimal.ofInt n ++ "]" := by
    intro n h
    have hhead := congrArg (fun text => text.toList.head?) h
    simp [String.toList_append] at hhead
  intro offset offset' h
  rw [displacement, displacement] at h
  split_ifs at h with hleft hright hright
  · rw [hleft, hright]
  · exact absurd h (hzero _)
  · exact absurd h.symm (hzero _)
  · exact Int32.toInt_inj.mp
      (ofInt_injective ((String.append_right_inj _).mp ((String.append_left_inj _).mp h)))

theorem address_injective {base base' : Reg} {offset offset' : Int32}
    (h : address base offset = address base' offset') : base = base' ∧ offset = offset' := by
  rw [address_eq, address_eq, String.append_right_inj] at h
  obtain ⟨hbase, hoffset⟩ := append_inj_of_stop base.isAlphanum_text base'.isAlphanum_text
    (not_isAlphanum_displacement offset) (not_isAlphanum_displacement offset') h
  exact ⟨Reg.text_injective hbase, displacement_injective hoffset⟩

/-! ## Operands -/

namespace Inst

inductive Operand where
  | reg (r : Reg)
  | cond (cond : Cond)
  | immediate (n : ℤ)
  | literal (n : ℤ)
  | cell (base : Reg) (offset : Int32)
  | low (symbol : String)
  | name (symbol : String)

def Operand.text : Operand → String
  | reg r => r.text
  | cond c => c.text
  | immediate n => "#" ++ Decimal.ofInt n
  | literal n => "=" ++ Decimal.ofInt n
  | cell base offset => address base offset
  | low symbol => ":lo12:" ++ symbol
  | name symbol => symbol

/-- The operands that one place of an instruction admits. A name may be any text at all, so a place
that admits names admits nothing else. -/
inductive Operand.Kind where
  | marked
  | cond
  | name

def Operand.kind : Operand → Kind
  | reg _ | immediate _ | literal _ | cell .. | low _ => .marked
  | cond _ => .cond
  | name _ => .name

/-- The mark in front of an operand; a register has none. -/
def Operand.mark? : Operand → Option Char
  | immediate _ => some '#'
  | literal _ => some '='
  | cell .. => some '['
  | low _ => some ':'
  | reg _ | cond _ | name _ => none

theorem Operand.mark?_eq {a : Operand} (h : a.kind = .marked) :
    a.mark? = a.text.toList.head?.filter fun c => ¬ c.isAlpha := by
  cases a with
  | reg r =>
    have hhead : r.text.toList.head?.filter (fun c => ¬ c.isAlpha) = none := by
      rcases r.head_text with hx | hs
      · rw [hx]; rfl
      · rw [hs]; rfl
    exact hhead.symm
  | immediate n | literal n | low symbol => simp [mark?, text, String.toList_append]; decide
  | cell base offset => simp [mark?, text, address_eq, String.toList_append]; decide
  | cond | name => cases h

/-- The mark tells marked operands of different form apart; those of one form differ behind it. -/
theorem Operand.text_injective {a b : Operand} (hkind : a.kind = b.kind) (h : a.text = b.text) :
    a = b := by
  have hmark : a.kind = .marked → a.mark? = b.mark? := fun ha => by
    rw [mark?_eq ha, mark?_eq (hkind ▸ ha), h]
  -- the mark leaves the pairs of one form
  cases a <;> cases b <;> try cases hkind <;> cases hmark rfl
  case reg.reg => rw [Reg.text_injective h]
  case cond.cond => rw [Cond.text_injective h]
  case immediate.immediate | literal.literal =>
    rw [ofInt_injective ((String.append_right_inj _).mp h)]
  case cell.cell =>
    obtain ⟨rfl, rfl⟩ := address_injective h
    rfl
  case low.low => rw [(String.append_right_inj _).mp h]
  case name.name symbol symbol' => rw [show symbol = symbol' from h]

/-! ## Lists of operands -/

/-- Only the last operand is anything but a register. -/
def Separable (operands : List Operand) : Prop := ∀ a ∈ operands.dropLast, ∃ r, a = .reg r

theorem head?_operandsAfter (operands : List String) :
    ∀ c ∈ (withOperands.operandsAfter operands).toList.head?, c = ',' := by
  cases operands <;> simp [withOperands.operandsAfter, String.toList_append, eq_comm]

theorem operandsAfter_cons_injective {a b : Operand} {rest rest' : List Operand}
    (hsep : Separable (a :: rest)) (hsep' : Separable (b :: rest'))
    (hkind : (a :: rest).map Operand.kind = (b :: rest').map Operand.kind)
    (h : a.text ++ withOperands.operandsAfter (rest.map Operand.text)
      = b.text ++ withOperands.operandsAfter (rest'.map Operand.text)) :
    a = b ∧ rest = rest' := by
  obtain ⟨hfirst, hrest⟩ := List.cons.inj hkind
  induction rest generalizing a b rest' with
  | nil =>
    obtain rfl : rest' = [] := List.map_eq_nil_iff.mp hrest.symm
    exact ⟨Operand.text_injective hfirst (by simpa [withOperands.operandsAfter] using h), rfl⟩
  | cons a₁ rest ih =>
    cases rest' with
    | nil => cases hrest
    | cons b₁ rest' =>
      obtain ⟨r, rfl⟩ := hsep a List.mem_cons_self
      obtain ⟨r', rfl⟩ := hsep' b List.mem_cons_self
      -- a register holds no comma, so the first comma ends it
      have hcomma : ∀ r : Reg, ∀ c ∈ (Operand.reg r).text.toList, (c != ',') = true := by
        intro r c hc
        have halnum := r.isAlphanum_text c hc
        rw [bne_iff_ne]
        rintro rfl
        exact absurd halnum (by decide)
      obtain ⟨hr, hafter⟩ := append_inj_of_stop (hcomma r) (hcomma r')
        (by simpa using head?_operandsAfter _) (by simpa using head?_operandsAfter _) h
      simp only [List.map_cons, withOperands.operandsAfter, String.append_assoc,
        String.append_right_inj] at hafter
      obtain ⟨hnext, hrest'⟩ := List.cons.inj hrest
      obtain ⟨rfl, rfl⟩ := ih (fun o ho => hsep o (List.mem_cons_of_mem _ ho))
        (fun o ho => hsep' o (List.mem_cons_of_mem _ ho)) hrest hafter hnext hrest'
      exact ⟨Operand.text_injective hfirst hr, rfl⟩

/-- What follows the mnemonic. -/
def behind : List Operand → String
  | [] => ""
  | a :: rest => " " ++ (a.text ++ withOperands.operandsAfter (rest.map Operand.text))

theorem withOperands_eq (mnemonic : String) (operands : List Operand) :
    withOperands mnemonic (operands.map Operand.text) = "\t" ++ (mnemonic ++ behind operands) := by
  cases operands <;> simp [withOperands, behind, String.append_assoc]

theorem head?_behind (operands : List Operand) :
    ∀ c ∈ (behind operands).toList.head?, c = ' ' := by
  cases operands <;> simp [behind, String.toList_append, eq_comm]

theorem behind_injective {operands operands' : List Operand} (hsep : Separable operands)
    (hsep' : Separable operands')
    (hkind : operands.map Operand.kind = operands'.map Operand.kind)
    (h : behind operands = behind operands') : operands = operands' := by
  cases operands with
  | nil => exact (List.map_eq_nil_iff.mp hkind.symm).symm
  | cons a rest =>
    cases operands' with
    | nil => cases hkind
    | cons b rest' =>
      obtain ⟨rfl, rfl⟩ :=
        operandsAfter_cons_injective hsep hsep' hkind ((String.append_right_inj " ").mp h)
      rfl

/-! ## Instructions -/

def mnemonic : Inst → String
  | add .. | addImm .. | addLo12 .. => "add"
  | sub .. | subImm .. => "sub"
  | mul .. => "mul"
  | sdiv .. => "sdiv"
  | neg .. => "neg"
  | and .. => "and"
  | orr .. => "orr"
  | eorImm .. => "eor"
  | cmp .. => "cmp"
  | cset .. => "cset"
  | mov .. | movImm .. => "mov"
  | ldrLiteral .. | ldr .. => "ldr"
  | str .. => "str"
  | stp .. => "stp"
  | ldp .. => "ldp"
  | adrp .. => "adrp"
  | b .. => "b"
  | cbz .. => "cbz"
  | cbnz .. => "cbnz"
  | bl .. => "bl"
  | ret => "ret"

def operands : Inst → List Operand
  | add rd rn rm | sub rd rn rm | mul rd rn rm | sdiv rd rn rm | and rd rn rm | orr rd rn rm =>
    [.reg rd, .reg rn, .reg rm]
  | neg rd rn | mov rd rn | cmp rd rn => [.reg rd, .reg rn]
  | addImm rd rn imm | subImm rd rn imm => [.reg rd, .reg rn, .immediate imm.toNat]
  | eorImm rd rn imm => [.reg rd, .reg rn, .immediate imm.toNat]
  | cset rd c => [.reg rd, .cond c]
  | movImm rd imm => [.reg rd, .immediate imm.toInt]
  | ldrLiteral rd imm => [.reg rd, .literal imm.toInt]
  | ldr rt rn offset | str rt rn offset => [.reg rt, .cell rn offset]
  | stp rt₁ rt₂ rn | ldp rt₁ rt₂ rn => [.reg rt₁, .reg rt₂, .cell rn 0]
  | addLo12 rd rn symbol => [.reg rd, .reg rn, .low symbol]
  | adrp r name | cbz r name | cbnz r name => [.reg r, .name name]
  | b name | bl name => [.name name]
  | ret => []

theorem text_eq (i : Inst) :
    i.text = withOperands i.mnemonic (i.operands.map Operand.text) := by cases i <;> rfl

/-- The places of an instruction, which its mnemonic settles. -/
def operandKinds (mnemonic : String) : List Operand.Kind :=
  if mnemonic = "ret" then []
  else if mnemonic ∈ ["b", "bl"] then [.name]
  else if mnemonic ∈ ["adrp", "cbz", "cbnz"] then [.marked, .name]
  else if mnemonic = "cset" then [.marked, .cond]
  else if mnemonic ∈ ["neg", "mov", "cmp", "ldr", "str"] then [.marked, .marked]
  else [.marked, .marked, .marked]

theorem kind_operands (i : Inst) : i.operands.map Operand.kind = operandKinds i.mnemonic := by
  cases i <;> rfl

theorem separable_operands (i : Inst) : Separable i.operands := by
  cases i <;> simp [Separable, operands]

theorem not_blank_mnemonic (i : Inst) : ∀ c ∈ i.mnemonic.toList, (c != ' ') = true := by
  cases i <;> simp [mnemonic]

/-- The instruction with this mnemonic and these operands. -/
def ofForm? (mnemonic : String) : List Operand → Option Inst
  | [.reg r, .reg r', .reg r''] =>
    ([("add", add), ("sub", sub), ("mul", mul), ("sdiv", sdiv), ("and", and),
      ("orr", orr)].lookup mnemonic).map fun form => form r r' r''
  | [.reg r, .reg r', .immediate n] =>
    ([("add", fun n : ℕ => addImm r r' (.ofNat n)), ("sub", fun n => subImm r r' (.ofNat n)),
      ("eor", fun n => eorImm r r' (.ofNat n))].lookup mnemonic).map fun form => form n.toNat
  | [.reg r, .reg r', .low symbol] => some (addLo12 r r' symbol)
  | [.reg r, .reg r', .cell base _] =>
    ([("stp", stp), ("ldp", ldp)].lookup mnemonic).map fun form => form r r' base
  | [.reg r, .reg r'] =>
    ([("neg", neg), ("cmp", cmp), ("mov", mov)].lookup mnemonic).map fun form => form r r'
  | [.reg r, .cond c] => some (cset r c)
  | [.reg r, .immediate n] => some (movImm r (.ofInt n))
  | [.reg r, .literal n] => some (ldrLiteral r (.ofInt n))
  | [.reg r, .cell base offset] =>
    ([("ldr", ldr), ("str", str)].lookup mnemonic).map fun form => form r base offset
  | [.reg r, .name name] =>
    ([("adrp", adrp), ("cbz", cbz), ("cbnz", cbnz)].lookup mnemonic).map fun form => form r name
  | [.name name] => ([("b", b), ("bl", bl)].lookup mnemonic).map fun form => form name
  | [] => some ret
  | _ => none

theorem ofForm?_form (i : Inst) : ofForm? i.mnemonic i.operands = some i := by
  cases i <;> simp [mnemonic, operands, ofForm?, List.lookup_cons]

/-- The text gives the mnemonic, the mnemonic the kinds of the operands, and these the operands. -/
theorem text_injective : Function.Injective text := by
  intro i j h
  rw [i.text_eq, j.text_eq, withOperands_eq, withOperands_eq, String.append_right_inj] at h
  obtain ⟨hmnemonic, hbehind⟩ := append_inj_of_stop i.not_blank_mnemonic j.not_blank_mnemonic
    (by simpa using head?_behind _) (by simpa using head?_behind _) h
  have hkind : i.operands.map Operand.kind = j.operands.map Operand.kind := by
    rw [i.kind_operands, j.kind_operands, hmnemonic]
  have hoperands : i.operands = j.operands :=
    behind_injective i.separable_operands j.separable_operands hkind hbehind
  have hform := i.ofForm?_form
  rw [hmnemonic, hoperands, j.ofForm?_form] at hform
  exact (Option.some.inj hform).symm

end Inst

theorem emitted_text_injective :
    (∀ i j : Inst, i.text = j.text ↔ i = j) ∧
    ∀ code code' : List Inst,
      (code.map Line.inst).map Line.text = (code'.map Line.inst).map Line.text ↔ code = code' := by
  refine ⟨fun i j => Inst.text_injective.eq_iff, fun code code' => ?_⟩
  have hlines : Function.Injective (Line.text ∘ Line.inst) := Inst.text_injective
  rw [List.map_map, List.map_map, hlines.list_map.eq_iff]

end A64Lowering.A64
