import A64Lowering.Json.Spelling

/-! # JSON tokens

* `Token`: a bracket, a mark or a scalar.
* `token?`: the token that a text starts with. `token?_length` says that it takes at least one
  character.
* `tokens?`: all tokens of a text, blanks between them left out. -/
namespace A64Lowering.Json
set_option autoImplicit false

/-- The pieces that a JSON text is made of. -/
inductive Token where
  | beginArray
  | endArray
  | beginObject
  | endObject
  | comma
  | colon
  | scalar (s : Scalar)
  deriving DecidableEq, Repr

/-- The four blanks that may stand between tokens. -/
def isSpace (c : Char) : Bool := c == ' ' || c == '\t' || c == '\n' || c == '\r'

/-- The token that a text starts with, and what follows it. -/
def token? : List Char → Option (Token × List Char)
  | '[' :: rest => some (.beginArray, rest)
  | ']' :: rest => some (.endArray, rest)
  | '\x7b' :: rest => some (.beginObject, rest)
  | '\x7d' :: rest => some (.endObject, rest)
  | ',' :: rest => some (.comma, rest)
  | ':' :: rest => some (.colon, rest)
  | '"' :: rest => (units rest).map fun (us, rest) => (.scalar (.string (textOfUnits? us)), rest)
  | 'n' :: 'u' :: 'l' :: 'l' :: rest => some (.scalar .null, rest)
  | 't' :: 'r' :: 'u' :: 'e' :: rest => some (.scalar (.bool true), rest)
  | 'f' :: 'a' :: 'l' :: 's' :: 'e' :: rest => some (.scalar (.bool false), rest)
  | cs => (number? cs).map fun (s, rest) => (.scalar s, rest)

/-! ## A token takes at least one character -/

theorem units_length {cs : List Char} {us : List Nat} {rest : List Char}
    (h : units cs = some (us, rest)) : rest.length < cs.length := by
  fun_induction units cs generalizing us rest with
  | case1 => simp_all
  | case2 a b c d cs ih =>
    simp only [Option.bind_eq_bind, Option.bind_eq_some_iff] at h
    obtain ⟨_, _, ⟨us', rest'⟩, found, h⟩ := h
    simp only [pure, Option.some.injEq, Prod.mk.injEq] at h
    obtain ⟨_, rfl⟩ := h
    have := ih found
    simp only [List.length_cons]
    omega
  | case3 letter cs _ ih =>
    simp only [Option.bind_eq_bind, Option.bind_eq_some_iff] at h
    obtain ⟨_, _, ⟨us', rest'⟩, found, h⟩ := h
    simp only [pure, Option.some.injEq, Prod.mk.injEq] at h
    obtain ⟨_, rfl⟩ := h
    have := ih found
    simp only [List.length_cons]
    omega
  | case4 => simp at h
  | case5 c cs _ _ _ _ ih =>
    simp only [Option.bind_eq_bind, Option.bind_eq_some_iff] at h
    obtain ⟨⟨us', rest'⟩, found, h⟩ := h
    simp only [pure, Option.some.injEq, Prod.mk.injEq] at h
    obtain ⟨_, rfl⟩ := h
    have := ih found
    simp only [List.length_cons]
    omega
  | case6 => simp at h

theorem digits?_length {cs run rest : List Char} (h : digits? cs = some (run, rest)) :
    rest.length < cs.length := by
  have split := congrArg List.length (List.takeWhile_append_dropWhile (p := Char.isDigit) (l := cs))
  rw [List.length_append] at split
  unfold digits? at h
  split at h
  · simp at h
  · next nonempty =>
    simp only [Option.some.injEq, Prod.mk.injEq] at h
    obtain ⟨_, rfl⟩ := h
    have : 0 < (cs.takeWhile Char.isDigit).length :=
      List.length_pos_iff.mpr fun empty => nonempty empty
    omega

theorem skipSign_length (cs : List Char) : (skipSign cs).length ≤ cs.length := by
  unfold skipSign
  split
  · exact Nat.le_succ _
  · exact Nat.le_succ _
  · exact Nat.le_refl _

theorem fraction?_length {cs rest : List Char} {b : Bool} (h : fraction? cs = some (b, rest)) :
    rest.length ≤ cs.length := by
  unfold fraction? at h
  split at h
  · simp only [Option.map_eq_some_iff, Prod.mk.injEq] at h
    obtain ⟨⟨run, rest'⟩, found, _, rfl⟩ := h
    have := digits?_length found
    simp only [List.length_cons]
    omega
  · simp_all

theorem exponent?_length {cs rest : List Char} {b : Bool} (h : exponent? cs = some (b, rest)) :
    rest.length ≤ cs.length := by
  unfold exponent? at h
  split at h
  case h_3 => simp_all
  all_goals
    next cs =>
      simp only [Option.map_eq_some_iff, Prod.mk.injEq] at h
      obtain ⟨⟨run, rest'⟩, found, _, rfl⟩ := h
      have := digits?_length found
      have := skipSign_length cs
      simp only [List.length_cons]
      omega

theorem unsigned?_length {negative : Bool} {cs rest : List Char} {s : Scalar}
    (h : unsigned? negative cs = some (s, rest)) : rest.length < cs.length := by
  simp only [unsigned?, Option.bind_eq_bind, Option.bind_eq_some_iff] at h
  obtain ⟨⟨run, r₁⟩, h₁, h⟩ := h
  split at h
  · simp at h
  · simp only [Option.bind_eq_some_iff] at h
    obtain ⟨⟨_, r₂⟩, h₂, ⟨_, r₃⟩, h₃, h⟩ := h
    simp only [pure, Option.some.injEq, Prod.mk.injEq] at h
    obtain ⟨_, rfl⟩ := h
    have whole := digits?_length h₁
    have fraction := fraction?_length h₂
    have exponent := exponent?_length h₃
    exact Nat.lt_of_le_of_lt (Nat.le_trans exponent fraction) whole

theorem number?_length {cs rest : List Char} {s : Scalar} (h : number? cs = some (s, rest)) :
    rest.length < cs.length := by
  unfold number? at h
  split at h
  · have := unsigned?_length h
    simp only [List.length_cons]
    omega
  · exact unsigned?_length h

theorem token?_length {cs rest : List Char} {t : Token} (h : token? cs = some (t, rest)) :
    rest.length < cs.length := by
  unfold token? at h
  split at h
  case h_7 =>
    simp only [Option.map_eq_some_iff, Prod.mk.injEq] at h
    obtain ⟨⟨us, rest'⟩, found, _, rfl⟩ := h
    have := units_length found
    simp only [List.length_cons]
    omega
  case h_11 =>
    simp only [Option.map_eq_some_iff, Prod.mk.injEq] at h
    obtain ⟨⟨s, rest'⟩, found, _, rfl⟩ := h
    exact number?_length found
  all_goals
    simp only [Option.some.injEq, Prod.mk.injEq] at h
    obtain ⟨_, rfl⟩ := h
    simp only [List.length_cons]
    omega

/-! ## All tokens -/

/-- The tokens of a text; none if a part of it is no token. -/
def tokens? (cs : List Char) : Option (List Token) :=
  match cs with
  | [] => some []
  | c :: rest =>
    if isSpace c then tokens? rest
    else
      match _h : token? (c :: rest) with
      | none => none
      | some (t, after) => (tokens? after).map (t :: ·)
termination_by cs.length
decreasing_by
  · simp
  · exact token?_length ‹_›

end A64Lowering.Json
