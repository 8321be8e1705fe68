import Mathlib
import A64Lowering.Json.Token

/-! # Scalars read back

* `units_flatMap_escape`, `textOfUnits?_toNat`: a string body spells the characters it was written
  for.
* `Ends`: what follows a text does not go on with a number. `number?_ofInt`: a numeral reads back as
  its number.
* `token?_write`: the spelling of a scalar is its token. -/
namespace A64Lowering
set_option autoImplicit false

/-- No numeral but that of zero starts with a zero. -/
theorem Decimal.head?_toDigits {n : Nat} (hn : 0 < n) : (Nat.toDigits 10 n).head? ≠ some '0' := by
  induction n using Nat.strong_induction_on with
  | _ n ih =>
    rw [Nat.toDigits_eq_if (by decide)]
    by_cases h : n < 10
    · rw [if_pos h]
      interval_cases n <;> decide
    · rw [if_neg h, List.head?_append_of_ne_nil _ Nat.toDigits_ne_nil]
      exact ih (n / 10) (Nat.div_lt_self hn (by decide)) (Nat.div_pos (Nat.not_lt.mp h) (by decide))

theorem Decimal.toList_negSucc (n : Nat) :
    (Decimal.ofInt (.negSucc n)).toList = '-' :: Nat.toDigits 10 (n + 1) := by
  rw [Decimal.ofInt, String.toList_append, Decimal.toList_ofNat]
  rfl

/-- A numeral starts with a digit or the minus sign. -/
theorem Decimal.exists_cons_ofInt (n : Int) :
    ∃ c cs, (Decimal.ofInt n).toList = c :: cs ∧ (c.isDigit = true ∨ c = '-') := by
  cases n with
  | ofNat n =>
    rw [Decimal.ofInt, Decimal.toList_ofNat]
    obtain ⟨c, cs, hcs⟩ := List.exists_cons_of_ne_nil (Nat.toDigits_ne_nil (n := n) (b := 10))
    have hmem : c ∈ Nat.toDigits 10 n := hcs ▸ List.mem_cons_self
    exact ⟨c, cs, hcs, .inl (Nat.isDigit_of_mem_toDigits (by decide) (by decide) hmem)⟩
  | negSucc n => exact ⟨'-', _, Decimal.toList_negSucc n, .inr rfl⟩

namespace Json

/-! ## Strings -/

theorem codeUnit?_hexDigit : ∀ n < 0x20,
    codeUnit? '0' '0' (hexDigit (n / 16)) (hexDigit (n % 16)) = some n := by decide

theorem units_of_letter {letter c : Char} (h : unescape? letter = some c) (more : List Char) :
    units ('\\' :: letter :: more) = (units more).map fun (us, rest) => (c.toNat :: us, rest) := by
  have hu : letter ≠ 'u' := by
    rintro rfl
    exact absurd h nofun
  rw [units]
  · rw [h]
    cases units more <;> rfl
  · intro a b c d rest hletter
    exact absurd hletter hu

theorem units_of_plain {c : Char} (hquote : c ≠ '"') (hslash : c ≠ '\\') (hc : ¬ c.toNat < 0x20)
    (more : List Char) :
    units (c :: more) = (units more).map fun (us, rest) => (c.toNat :: us, rest) := by
  rw [units]
  · rw [if_neg (not_or.mpr ⟨hslash, hc⟩)]
    cases units more <;> rfl
  · exact hquote
  · intro a b c' d rest hslash'
    exact absurd hslash' hslash
  · intro letter rest hslash'
    exact absurd hslash' hslash

/-- A character spells its code point. -/
theorem units_escape (c : Char) (more : List Char) :
    units (escape c ++ more) = (units more).map fun (us, rest) => (c.toNat :: us, rest) := by
  unfold escape
  split
  -- seven characters have a letter of their own; of the others the control characters are spelled
  -- by their code
  case h_8 hquote hslash _ _ _ _ _ =>
    by_cases hc : c.toNat < 0x20
    · rw [if_pos hc]
      show units ('\\' :: 'u' :: '0' :: '0' :: _ :: _ :: more) = _
      rw [units, codeUnit?_hexDigit c.toNat hc]
      cases units more <;> rfl
    · rw [if_neg hc]
      exact units_of_plain hquote hslash hc more
  all_goals exact units_of_letter rfl more

theorem units_flatMap_escape (cs rest : List Char) :
    units (cs.flatMap escape ++ '"' :: rest) = some (cs.map Char.toNat, rest) := by
  induction cs with
  | nil => rw [List.flatMap_nil, List.nil_append, units]; rfl
  | cons c cs ih =>
    rw [List.flatMap_cons, List.append_assoc, units_escape, ih]
    rfl

/-- A character is no surrogate. -/
theorem not_surrogate (c : Char) :
    isHighSurrogate c.toNat = false ∧ isLowSurrogate c.toNat = false := by
  have hvalid : c.toNat < 0xD800 ∨ 0xDFFF < c.toNat ∧ c.toNat < 0x110000 := c.valid
  unfold isHighSurrogate isLowSurrogate
  simp only [Bool.and_eq_false_iff, decide_eq_false_iff_not]
  omega

theorem charsOfUnits?_toNat (cs : List Char) : charsOfUnits? (cs.map Char.toNat) = some cs := by
  induction cs with
  | nil => rw [List.map_nil, charsOfUnits?]
  | cons c cs ih =>
    obtain ⟨hhigh, hlow⟩ := not_surrogate c
    rw [List.map_cons]
    unfold charsOfUnits?
    rw [hhigh, hlow, ih]
    simp [Char.ofNat_toNat]

theorem textOfUnits?_toNat (s : String) : textOfUnits? (s.toList.map Char.toNat) = some s := by
  rw [textOfUnits?, charsOfUnits?_toNat, Option.map_some, String.ofList_toList]

/-! ## Numbers -/

/-- The text does not go on with digits, a fraction or an exponent. -/
def Ends (rest : List Char) : Prop :=
  ∀ c ∈ rest.head?, c.isDigit = false ∧ c ≠ '.' ∧ c ≠ 'e' ∧ c ≠ 'E'

theorem ends_nil : Ends [] := nofun

theorem ends_comma (rest : List Char) : Ends (',' :: rest) := by
  intro c hc
  cases hc
  decide

theorem ends_newline (rest : List Char) : Ends ('\n' :: rest) := by
  intro c hc
  cases hc
  decide

section Numbers
variable {rest : List Char}

theorem digits?_append {run : List Char} (hrun : ∀ c ∈ run, c.isDigit = true) (hne : run ≠ [])
    (h : Ends rest) : digits? (run ++ rest) = some (run, rest) := by
  have htake : rest.takeWhile Char.isDigit = [] := by
    cases rest with
    | nil => rfl
    | cons c rest => exact List.takeWhile_cons_of_neg (by simp [(h c rfl).1])
  have hdrop : rest.dropWhile Char.isDigit = rest := by
    cases rest with
    | nil => rfl
    | cons c rest => exact List.dropWhile_cons_of_neg (by simp [(h c rfl).1])
  unfold digits?
  rw [List.takeWhile_append_of_pos hrun, List.dropWhile_append_of_pos hrun, htake, hdrop,
    List.append_nil]
  cases run with
  | nil => exact absurd rfl hne
  | cons c run => rfl

theorem fraction?_of_ends (h : Ends rest) : fraction? rest = some (false, rest) := by
  unfold fraction?
  split
  · exact absurd rfl (h '.' rfl).2.1
  · rfl

theorem exponent?_of_ends (h : Ends rest) : exponent? rest = some (false, rest) := by
  unfold exponent?
  split
  · exact absurd rfl (h 'e' rfl).2.2.1
  · exact absurd rfl (h 'E' rfl).2.2.2
  · rfl

theorem unsigned?_toDigits (negative : Bool) (n : Nat) (h : Ends rest) :
    unsigned? negative (Nat.toDigits 10 n ++ rest)
      = some (.ofDigits negative false (Nat.toDigits 10 n), rest) := by
  have hdigits : ∀ c ∈ Nat.toDigits 10 n, c.isDigit = true := fun c hc =>
    Nat.isDigit_of_mem_toDigits (by decide) (by decide) hc
  have hzero : ¬ ((Nat.toDigits 10 n).head? = some '0' ∧ Nat.toDigits 10 n ≠ ['0']) := by
    rintro ⟨hhead, hne⟩
    rcases Nat.eq_zero_or_pos n with rfl | hpos
    · exact hne rfl
    · exact Decimal.head?_toDigits hpos hhead
  unfold unsigned?
  rw [digits?_append hdigits Nat.toDigits_ne_nil h]
  simp only [Option.bind_eq_bind, Option.bind_some]
  rw [if_neg hzero, fraction?_of_ends h, Option.bind_some, exponent?_of_ends h]
  rfl

theorem ofDigits_toDigits (negative : Bool) (n : Nat) (h : negative = true → n ≠ 0) :
    Scalar.ofDigits negative false (Nat.toDigits 10 n)
      = .integer (if negative then -(n : Int) else n) := by
  unfold Scalar.ofDigits
  rw [Nat.ofDigitChars_ten_toDigits]
  cases negative with
  | false => rfl
  | true => simp [h rfl]

/-- A numeral reads back as its number. -/
theorem number?_ofInt (n : Int) (h : Ends rest) :
    number? ((Decimal.ofInt n).toList ++ rest) = some (.integer n, rest) := by
  cases n with
  | ofNat n =>
    rw [Decimal.ofInt, Decimal.toList_ofNat, number?]
    · rw [unsigned?_toDigits false n h, ofDigits_toDigits false n fun hneg => absurd hneg Bool.false_ne_true]
      rfl
    · intro cs hcs
      have hmem : '-' ∈ (Nat.toDigits 10 n).head? := by
        have hhead : (Nat.toDigits 10 n ++ rest).head? = (Nat.toDigits 10 n).head? :=
          List.head?_append_of_ne_nil _ Nat.toDigits_ne_nil
        rw [← hhead, hcs]
        rfl
      have hdigit := Nat.isDigit_of_mem_toDigits (by decide) (by decide) (List.mem_of_mem_head? hmem)
      exact absurd hdigit (by decide)
  | negSucc n =>
    rw [Decimal.toList_negSucc, List.cons_append, number?, unsigned?_toDigits true (n + 1) h,
      ofDigits_toDigits true (n + 1) fun _ => Nat.succ_ne_zero n]
    rfl

/-! ## Tokens -/

/-- No token starts with a blank. -/
theorem isSpace_of_token? {c : Char} {cs : List Char} {t : Token}
    (h : token? (c :: cs) = some (t, rest)) : isSpace c = false := by
  by_contra hspace
  unfold isSpace at hspace
  simp only [Bool.not_eq_false, Bool.or_eq_true, beq_iff_eq] at hspace
  rcases hspace with ((rfl | rfl) | rfl) | rfl <;> cases h

theorem token?_of_number {c : Char} (hc : c.isDigit = true ∨ c = '-') (cs : List Char) :
    token? (c :: cs) = (number? (c :: cs)).map fun (s, rest) => (.scalar s, rest) := by
  have hne : c ∉ ['[', ']', '\x7b', '\x7d', ',', ':', '"', 'n', 't', 'f'] := by
    rintro hmem
    simp only [List.mem_cons, List.not_mem_nil, or_false] at hmem
    rcases hmem with rfl | rfl | rfl | rfl | rfl | rfl | rfl | rfl | rfl | rfl <;>
      exact absurd hc (by decide)
  unfold token?
  split
  case h_11 => rfl
  all_goals
    next heq =>
      cases heq
      exact absurd hne (by decide)

/-- The spelling of a scalar is its token. -/
theorem token?_write (s : Scalar) (h : Ends rest) : token? (s.write ++ rest) = some (.scalar s, rest) := by
  cases s with
  | null => rfl
  | bool b => cases b <;> rfl
  | integer n =>
    obtain ⟨c, cs, hcs, hc⟩ := Decimal.exists_cons_ofInt n
    have hnumber := number?_ofInt n h
    rw [hcs, List.cons_append] at hnumber
    show token? ((Decimal.ofInt n).toList ++ rest) = _
    rw [hcs, List.cons_append, token?_of_number hc, hnumber]
    rfl
  | real =>
    have hnumber : number? ('-' :: (Nat.toDigits 10 0 ++ rest)) = some (.real, rest) := by
      rw [number?, unsigned?_toDigits true 0 h]
      rfl
    show token? ('-' :: (Nat.toDigits 10 0 ++ rest)) = _
    rw [token?_of_number (.inr rfl), hnumber]
    rfl
  | string s =>
    cases s with
    | none => rfl
    | some s =>
      show token? ('"' :: (s.toList.flatMap escape ++ ['"'] ++ rest)) = _
      rw [List.append_assoc, token?, List.singleton_append, units_flatMap_escape, Option.map_some]
      simp only [textOfUnits?_toNat]

end Numbers
end Json
end A64Lowering
