/-! # Decimal numerals

* `Decimal.ofNat`, `Decimal.ofInt`: the numeral of a number, without leading zeros, with a minus
  sign in front of a negative one.
* `Decimal.nat?`: the number that a run of ASCII digits stands for.
* `Decimal.signed?`: the same after at most one sign. `signed?_ofInt` reads every numeral back. -/
namespace A64Lowering.Decimal
set_option autoImplicit false

/-- The digits of `n`, most significant first. -/
def ofNat (n : Nat) : String := n.repr

/-- The numeral of `n`. -/
def ofInt : Int → String
  | .ofNat n => ofNat n
  | .negSucc n => "-" ++ ofNat (n + 1)

/-- The number spelled by one or more ASCII digits; leading zeros are allowed. -/
def nat? (cs : List Char) : Option Nat :=
  if cs ≠ [] ∧ cs.all Char.isDigit then some (Nat.ofDigitChars 10 cs 0) else none

/-- The number spelled by at most one sign and then one or more ASCII digits. -/
def signed? : List Char → Option Int
  | '-' :: cs => (nat? cs).map fun n => -(n : Int)
  | '+' :: cs => (nat? cs).map Int.ofNat
  | cs => (nat? cs).map Int.ofNat

theorem toList_ofNat (n : Nat) : (ofNat n).toList = Nat.toDigits 10 n := Nat.toList_repr

/-- A numeral has digits only. -/
theorem isDigit_of_mem_ofNat {n : Nat} {c : Char} (h : c ∈ (ofNat n).toList) : c.isDigit = true := by
  rw [toList_ofNat] at h
  exact Nat.isDigit_of_mem_toDigits (by decide) (by decide) h

/-- Reading takes a numeral back to its number. -/
theorem nat?_ofNat (n : Nat) : nat? (ofNat n).toList = some n := by
  have digits : (Nat.toDigits 10 n).all Char.isDigit = true :=
    List.all_eq_true.mpr fun c hc => Nat.isDigit_of_mem_toDigits (by decide) (by decide) hc
  rw [nat?, toList_ofNat, if_pos ⟨Nat.toDigits_ne_nil, digits⟩, Nat.ofDigitChars_ten_toDigits]

/-- Distinct numbers have distinct numerals. -/
theorem ofNat_injective {m n : Nat} (h : ofNat m = ofNat n) : m = n := by
  have h' := nat?_ofNat m
  rw [h, nat?_ofNat] at h'
  exact (Option.some.inj h').symm

theorem signed?_ofNat (n : Nat) : signed? (ofNat n).toList = some (n : Int) := by
  have first : ∀ c ∈ (ofNat n).toList, c ≠ '-' ∧ c ≠ '+' := fun c hc => by
    have digit := isDigit_of_mem_ofNat hc
    constructor <;> rintro rfl <;> simp at digit
  rw [signed?]
  · rw [nat?_ofNat]; rfl
  · intro cs h
    exact (first '-' (h ▸ List.mem_cons_self)).1 rfl
  · intro cs h
    exact (first '+' (h ▸ List.mem_cons_self)).2 rfl

/-- Reading takes every numeral back to its number. -/
theorem signed?_ofInt : ∀ n : Int, signed? (ofInt n).toList = some n
  | .ofNat n => signed?_ofNat n
  | .negSucc n => by
    have h : (ofInt (.negSucc n)).toList = '-' :: (ofNat (n + 1)).toList := by
      rw [ofInt, String.toList_append]; rfl
    rw [h, signed?, nat?_ofNat]
    rfl

end A64Lowering.Decimal
