import A64Lowering.Json.Value

/-! # How JSON spells scalars

Writing:
* `writeString`: quotes around the text; a quote, a backslash and the characters below 0x20 are
  escaped, all others stand for themselves.
* `Scalar.write`.

Reading:
* `units`: what a string body spells, as code points and escaped code units.
* `textOfUnits?`: the text of such units, in which surrogates come in pairs only.
* `number?`: a number at the start of a text. -/
namespace A64Lowering.Json
set_option autoImplicit false

/-! ## Strings -/

/-- The lower-case hexadecimal digit of `n < 16`. -/
def hexDigit (n : Nat) : Char := Nat.digitChar n

/-- The number that a hexadecimal digit of either case stands for. -/
def hexValue? (c : Char) : Option Nat :=
  if '0' ≤ c ∧ c ≤ '9' then some (c.toNat - '0'.toNat)
  else if 'a' ≤ c ∧ c ≤ 'f' then some (c.toNat - 'a'.toNat + 10)
  else if 'A' ≤ c ∧ c ≤ 'F' then some (c.toNat - 'A'.toNat + 10)
  else none

/-- The code unit that four hexadecimal digits spell. -/
def codeUnit? (a b c d : Char) : Option Nat := do
  let a ← hexValue? a
  let b ← hexValue? b
  let c ← hexValue? c
  let d ← hexValue? d
  return ((a * 16 + b) * 16 + c) * 16 + d

/-- What a backslash and `letter` stand for. -/
def unescape? (letter : Char) : Option Char :=
  match letter with
  | '"' => some '"'
  | '\\' => some '\\'
  | '/' => some '/'
  | 'b' => some '\x08'
  | 'f' => some '\x0c'
  | 'n' => some '\n'
  | 'r' => some '\r'
  | 't' => some '\t'
  | _ => none

/-- How a character is spelled inside a string. -/
def escape (c : Char) : List Char :=
  match c with
  | '"' => ['\\', '"']
  | '\\' => ['\\', '\\']
  | '\x08' => ['\\', 'b']
  | '\x0c' => ['\\', 'f']
  | '\n' => ['\\', 'n']
  | '\r' => ['\\', 'r']
  | '\t' => ['\\', 't']
  | c =>
    if c.toNat < 0x20 then ['\\', 'u', '0', '0', hexDigit (c.toNat / 16), hexDigit (c.toNat % 16)]
    else [c]

/-- A text between quotes. -/
def writeString (s : String) : List Char := '"' :: s.toList.flatMap escape ++ ['"']

/-- The units of a string body up to its closing quote, and what follows the quote. A character
stands for its code point, an escape for the code unit it names. -/
def units : List Char → Option (List Nat × List Char)
  | '"' :: rest => some ([], rest)
  | '\\' :: 'u' :: a :: b :: c :: d :: rest => do
    let unit ← codeUnit? a b c d
    let (more, rest) ← units rest
    return (unit :: more, rest)
  | '\\' :: letter :: rest => do
    let c ← unescape? letter
    let (more, rest) ← units rest
    return (c.toNat :: more, rest)
  | c :: rest =>
    if c = '\\' ∨ c.toNat < 0x20 then none
    else do
      let (more, rest) ← units rest
      return (c.toNat :: more, rest)
  | [] => none

/-- Whether `u` is the first code unit of a surrogate pair. -/
def isHighSurrogate (u : Nat) : Bool := 0xD800 ≤ u && u ≤ 0xDBFF

/-- Whether `u` is the second code unit of a surrogate pair. -/
def isLowSurrogate (u : Nat) : Bool := 0xDC00 ≤ u && u ≤ 0xDFFF

/-- The text of `units`; none if a surrogate stands without its partner. -/
def charsOfUnits? : List Nat → Option (List Char)
  | [] => some []
  | u :: rest =>
    if isHighSurrogate u then
      match rest with
      | v :: rest =>
        if isLowSurrogate v then
          (charsOfUnits? rest).map
            (Char.ofNat (0x10000 + (u - 0xD800) * 0x400 + (v - 0xDC00)) :: ·)
        else none
      | [] => none
    else if isLowSurrogate u then none
    else (charsOfUnits? rest).map (Char.ofNat u :: ·)

/-- The text of `units`; none if a surrogate stands without its partner. -/
def textOfUnits? (us : List Nat) : Option String := (charsOfUnits? us).map String.ofList

/-! ## Numbers -/

/-- The digits that `cs` starts with, and what follows them; none if there is no digit. -/
def digits? (cs : List Char) : Option (List Char × List Char) :=
  match cs.takeWhile Char.isDigit with
  | [] => none
  | run => some (run, cs.dropWhile Char.isDigit)

/-- Whether a fraction starts `cs`, and what follows it; none if it has no digits. -/
def fraction? : List Char → Option (Bool × List Char)
  | '.' :: cs => (digits? cs).map fun (_, rest) => (true, rest)
  | cs => some (false, cs)

/-- What follows an optional sign. -/
def skipSign : List Char → List Char
  | '+' :: cs => cs
  | '-' :: cs => cs
  | cs => cs

/-- Whether an exponent starts `cs`, and what follows it; none if it has no digits. -/
def exponent? : List Char → Option (Bool × List Char)
  | 'e' :: cs => (digits? (skipSign cs)).map fun (_, rest) => (true, rest)
  | 'E' :: cs => (digits? (skipSign cs)).map fun (_, rest) => (true, rest)
  | cs => some (false, cs)

/-- The number with this sign and these digits of its whole part. -/
def Scalar.ofDigits (negative isReal : Bool) (run : List Char) : Scalar :=
  let n := Nat.ofDigitChars 10 run 0
  if isReal || (negative && n == 0) then .real
  else .integer (if negative then -(n : Int) else n)

/-- The unsigned number that `cs` starts with, and what follows it. A whole part of several digits
does not start with zero. -/
def unsigned? (negative : Bool) (cs : List Char) : Option (Scalar × List Char) := do
  let (run, rest) ← digits? cs
  if run.head? = some '0' ∧ run ≠ ['0'] then none
  else
    let (hasFraction, rest) ← fraction? rest
    let (hasExponent, rest) ← exponent? rest
    return (.ofDigits negative (hasFraction || hasExponent) run, rest)

/-- The number that `cs` starts with, and what follows it. -/
def number? : List Char → Option (Scalar × List Char)
  | '-' :: cs => unsigned? true cs
  | cs => unsigned? false cs

/-! ## Scalars -/

/-- How a scalar is spelled. The scalars that no program writes have a spelling that reads back. -/
def Scalar.write : Scalar → List Char
  | null => ['n', 'u', 'l', 'l']
  | bool true => ['t', 'r', 'u', 'e']
  | bool false => ['f', 'a', 'l', 's', 'e']
  | integer n => (Decimal.ofInt n).toList
  | real => ['-', '0']
  | string (some s) => writeString s
  | string none => ['"', '\\', 'u', 'd', '8', '0', '0', '"']

end A64Lowering.Json
