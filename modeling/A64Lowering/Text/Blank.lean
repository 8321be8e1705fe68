/-! # Blanks

* `Text.isBlank`: the characters with the Unicode property `White_Space`.
* `Text.trim`: a text without the blanks at its two ends. -/
namespace A64Lowering.Text
set_option autoImplicit false

/-- The characters with the property `White_Space`, as inclusive ranges of code points. -/
def blankRanges : List (Nat × Nat) :=
  [(0x09, 0x0D), (0x20, 0x20), (0x85, 0x85), (0xA0, 0xA0), (0x1680, 0x1680), (0x2000, 0x200A),
    (0x2028, 0x2029), (0x202F, 0x202F), (0x205F, 0x205F), (0x3000, 0x3000)]

/-- Whether `c` is a blank. -/
def isBlank (c : Char) : Bool :=
  blankRanges.any fun (first, last) => first ≤ c.toNat && c.toNat ≤ last

/-- `cs` without the blanks at its two ends. -/
def trimChars (cs : List Char) : List Char :=
  ((cs.dropWhile isBlank).reverse.dropWhile isBlank).reverse

/-- `s` without the blanks at its two ends. -/
def trim (s : String) : String := String.ofList (trimChars s.toList)

/-- The property has twenty-five characters. -/
example : (blankRanges.map fun (first, last) => last + 1 - first).sum = 25 := by decide

end A64Lowering.Text
