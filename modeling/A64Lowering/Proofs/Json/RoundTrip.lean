import Mathlib
import A64Lowering.Json.Printer
import A64Lowering.Json.Reader
import A64Lowering.Proofs.Json.Spelling

/-! # Printed values read back

* `Json.induction`: a property of all values, from its parts to the whole.
* `tokens`: the tokens of a value. `tokens?_write`: the printed value consists of them.
* `foldlM_tokens`: the reader takes them back to the value.
* `read?_pretty`: every value reads back. -/
namespace A64Lowering.Json
set_option autoImplicit false

@[elab_as_elim]
theorem induction {P : Json → Prop} (scalar : ∀ s, P (.scalar s))
    (array : ∀ items, (∀ v ∈ items, P v) → P (.array items))
    (object : ∀ members, (∀ m ∈ members, P (Prod.snd m)) → P (.object members)) (v : Json) : P v := by
  refine @Json.rec P (fun items => ∀ v ∈ items, P v) (fun members => ∀ m ∈ members, P m.2)
    (fun m => P m.2) scalar array object ?_ ?_ ?_ ?_ ?_ v
  · exact List.forall_mem_nil _
  · exact fun item items hitem hitems => List.forall_mem_cons.mpr ⟨hitem, hitems⟩
  · exact List.forall_mem_nil _
  · exact fun m members hm hmembers => List.forall_mem_cons.mpr ⟨hm, hmembers⟩
  · exact fun _ _ hv => hv

/-! ## The tokens of a value -/

mutual

def tokens : Json → List Token
  | .scalar s => [.scalar s]
  | .array [] => [.beginArray, .endArray]
  | .array (item :: items) => .beginArray :: tokens item ++ itemTokens items ++ [.endArray]
  | .object [] => [.beginObject, .endObject]
  | .object ((name, value) :: members) =>
    .beginObject :: .scalar (.string name) :: .colon :: tokens value ++ memberTokens members
      ++ [.endObject]

/-- The items after the first one. -/
def itemTokens : List Json → List Token
  | [] => []
  | item :: items => .comma :: tokens item ++ itemTokens items

/-- The members after the first one. -/
def memberTokens : List Member → List Token
  | [] => []
  | (name, value) :: members =>
    .comma :: .scalar (.string name) :: .colon :: tokens value ++ memberTokens members

end

/-! ## What is printed -/

section Printed
variable {rest : List Char}

theorem tokens?_of_token? {cs : List Char} {t : Token} (h : token? cs = some (t, rest)) :
    tokens? cs = (tokens? rest).map (t :: ·) := by
  cases cs with
  | nil => cases h
  | cons c cs =>
    rw [tokens?, if_neg (by rw [isSpace_of_token? h]; exact Bool.false_ne_true)]
    split
    · next hnone => rw [h] at hnone; cases hnone
    · next hsome =>
      rw [h] at hsome
      cases hsome
      rfl

theorem tokens?_of_isSpace {c : Char} (hc : isSpace c = true) (rest : List Char) :
    tokens? (c :: rest) = tokens? rest := by
  rw [tokens?, if_pos hc]

theorem tokens?_newline (depth : Nat) (rest : List Char) :
    tokens? (newline depth ++ rest) = tokens? rest := by
  unfold newline
  rw [List.cons_append, tokens?_of_isSpace rfl]
  generalize 2 * depth = n
  induction n with
  | zero => rfl
  | succ n ih => rw [List.replicate_succ, List.cons_append, tokens?_of_isSpace rfl, ih]

theorem tokens?_scalar (s : Scalar) (h : Ends rest) :
    tokens? (s.write ++ rest) = (tokens? rest).map (.scalar s :: ·) :=
  tokens?_of_token? (token?_write s h)

theorem ends_newline_append (depth : Nat) (rest : List Char) : Ends (newline depth ++ rest) :=
  ends_newline _

/-- A name, the colon after it and the value. -/
theorem tokens?_member (name : Option String) (rest : List Char) :
    tokens? ((Scalar.string name).write ++ ':' :: ' ' :: rest)
      = (tokens? rest).map fun ts => .scalar (.string name) :: .colon :: ts := by
  have hends : Ends (':' :: ' ' :: rest) := by
    intro c hc
    cases hc
    decide
  have hcolon : token? (':' :: ' ' :: rest) = some (.colon, ' ' :: rest) := rfl
  rw [tokens?_scalar _ hends, tokens?_of_token? hcolon, tokens?_of_isSpace rfl, Option.map_map]
  rfl

/-- At every depth the value is printed as its tokens. -/
def Prints (v : Json) : Prop :=
  ∀ (depth : Nat) (rest : List Char), Ends rest →
    tokens? (write depth v ++ rest) = (tokens? rest).map (v.tokens ++ ·)

theorem ends_writeItems (depth : Nat) (items : List Json) (h : Ends rest) :
    Ends (writeItems depth items ++ rest) := by
  cases items with
  | nil => exact h
  | cons item items => exact ends_comma _

theorem ends_writeMembers (depth : Nat) (members : List Member) (h : Ends rest) :
    Ends (writeMembers depth members ++ rest) := by
  cases members with
  | nil => exact h
  | cons m members => exact ends_comma _

theorem tokens?_writeItems {items : List Json} (hitems : ∀ v ∈ items, Prints v) (depth : Nat)
    (h : Ends rest) :
    tokens? (writeItems depth items ++ rest) = (tokens? rest).map (itemTokens items ++ ·) := by
  induction items with
  | nil => simp [writeItems, itemTokens]
  | cons item items ih =>
    obtain ⟨hitem, hrest⟩ := List.forall_mem_cons.mp hitems
    have hcomma : ∀ more, token? (',' :: more) = some (.comma, more) := fun _ => rfl
    simp only [writeItems, itemTokens, List.cons_append, List.append_assoc]
    rw [tokens?_of_token? (hcomma _), tokens?_newline,
      hitem depth _ (ends_writeItems depth items h), ih hrest]
    simp only [Option.map_map]
    rfl

theorem tokens?_writeMembers {members : List Member} (hmembers : ∀ m ∈ members, Prints m.2)
    (depth : Nat) (h : Ends rest) :
    tokens? (writeMembers depth members ++ rest)
      = (tokens? rest).map (memberTokens members ++ ·) := by
  induction members with
  | nil => simp [writeMembers, memberTokens]
  | cons m members ih =>
    obtain ⟨name, value⟩ := m
    obtain ⟨hvalue, hrest⟩ := List.forall_mem_cons.mp hmembers
    have hcomma : ∀ more, token? (',' :: more) = some (.comma, more) := fun _ => rfl
    simp only [writeMembers, memberTokens, List.cons_append, List.append_assoc, List.nil_append]
    rw [tokens?_of_token? (hcomma _), tokens?_newline, tokens?_member,
      hvalue depth _ (ends_writeMembers depth members h), ih hrest]
    simp only [Option.map_map]
    rfl

/-- The printed value consists of the tokens of the value. -/
theorem tokens?_write (v : Json) : Prints v := by
  induction v using Json.induction with
  | scalar s =>
    intro depth rest h
    rw [write, tokens?_scalar s h, tokens]
    rfl
  | array items ih =>
    intro depth rest _
    have hbegin : ∀ more, token? ('[' :: more) = some (.beginArray, more) := fun _ => rfl
    have hend : ∀ more, token? (']' :: more) = some (.endArray, more) := fun _ => rfl
    cases items with
    | nil =>
      simp only [write, tokens, List.cons_append, List.nil_append]
      rw [tokens?_of_token? (hbegin _), tokens?_of_token? (hend _), Option.map_map]
      rfl
    | cons item items =>
      obtain ⟨hitem, hitems⟩ := List.forall_mem_cons.mp ih
      simp only [write, tokens, List.cons_append, List.append_assoc, List.nil_append]
      rw [tokens?_of_token? (hbegin _), tokens?_newline,
        hitem _ _ (ends_writeItems _ items (ends_newline_append _ _)),
        tokens?_writeItems hitems _ (ends_newline_append _ _), tokens?_newline,
        tokens?_of_token? (hend _)]
      simp only [Option.map_map]
      rfl
  | object members ih =>
    intro depth rest _
    have hbegin : ∀ more, token? ('\x7b' :: more) = some (.beginObject, more) := fun _ => rfl
    have hend : ∀ more, token? ('\x7d' :: more) = some (.endObject, more) := fun _ => rfl
    cases members with
    | nil =>
      simp only [write, tokens, List.cons_append, List.nil_append]
      rw [tokens?_of_token? (hbegin _), tokens?_of_token? (hend _), Option.map_map]
      rfl
    | cons m members =>
      obtain ⟨name, value⟩ := m
      obtain ⟨hvalue, hmembers⟩ := List.forall_mem_cons.mp ih
      simp only [write, tokens, List.cons_append, List.append_assoc, List.nil_append]
      rw [tokens?_of_token? (hbegin _), tokens?_newline, tokens?_member,
        hvalue _ _ (ends_writeMembers _ members (ends_newline_append _ _)),
        tokens?_writeMembers hmembers _ (ends_newline_append _ _), tokens?_newline,
        tokens?_of_token? (hend _)]
      simp only [Option.map_map]
      rfl

end Printed

/-! ## What is read -/

section Read
open Progress

/-- Where a value may come, its tokens are read as the value. -/
def Reads (v : Json) : Prop :=
  ∀ outer, v.tokens.foldlM step (.value outer) = some (.after v outer)

/-- Before its first item an array takes what a value starts with. -/
theorem foldlM_firstItem (v : Json) (outer : List Frame) :
    v.tokens.foldlM step (.firstItem outer) = v.tokens.foldlM step (.value (.array [] :: outer)) := by
  -- the two states differ in what the closing bracket does, and no value starts with that
  cases v with
  | scalar s => rw [tokens]; rfl
  | array items => cases items <;> rw [tokens] <;> rfl
  | object members => cases members <;> rw [tokens] <;> rfl

theorem foldlM_cons_of_step {p q : Progress} {t : Token} (h : p.step t = some q) (ts : List Token) :
    (t :: ts).foldlM step p = ts.foldlM step q := by
  rw [List.foldlM_cons, h]
  rfl

theorem foldlM_append_of_reads {v : Json} (h : Reads v) (ts : List Token) (outer : List Frame) :
    (v.tokens ++ ts).foldlM step (.value outer) = ts.foldlM step (.after v outer) := by
  rw [List.foldlM_append, h]
  rfl

theorem foldlM_itemTokens {items : List Json} (hitems : ∀ v ∈ items, Reads v) (first : Json)
    (done : List Json) (outer : List Frame) :
    (itemTokens items ++ [Token.endArray]).foldlM step (.after first (.array done :: outer))
      = some (.after (.array ((first :: done).reverse ++ items)) outer) := by
  induction items generalizing first done with
  | nil =>
    rw [itemTokens, List.append_nil]
    rfl
  | cons item items ih =>
    obtain ⟨hitem, hrest⟩ := List.forall_mem_cons.mp hitems
    have hcomma : step (.after first (.array done :: outer)) .comma
        = some (.value (.array (first :: done) :: outer)) := rfl
    simp only [itemTokens, List.cons_append, List.append_assoc]
    rw [foldlM_cons_of_step hcomma, foldlM_append_of_reads hitem, ih hrest item (first :: done)]
    simp only [List.reverse_cons, List.append_assoc, List.cons_append, List.nil_append]

theorem foldlM_memberTokens {members : List Member} (hmembers : ∀ m ∈ members, Reads m.2)
    (name : Option String) (first : Json) (done : List Member) (outer : List Frame) :
    (memberTokens members ++ [Token.endObject]).foldlM step
        (.after first (.object done name :: outer))
      = some (.after (.object (((name, first) :: done).reverse ++ members)) outer) := by
  -- the members read so far are kept in reverse, with the value of the last name still apart
  induction members generalizing name first done with
  | nil =>
    rw [memberTokens, List.append_nil]
    rfl
  | cons m members ih =>
    obtain ⟨next, value⟩ := m
    obtain ⟨hvalue, hrest⟩ := List.forall_mem_cons.mp hmembers
    have hcomma : step (.after first (.object done name :: outer)) .comma
        = some (.nextName ((name, first) :: done) outer) := rfl
    have hname : step (.nextName ((name, first) :: done) outer) (.scalar (.string next))
        = some (.colon ((name, first) :: done) next outer) := rfl
    have hcolon : step (.colon ((name, first) :: done) next outer) .colon
        = some (.value (.object ((name, first) :: done) next :: outer)) := rfl
    simp only [memberTokens, List.cons_append, List.append_assoc]
    rw [foldlM_cons_of_step hcomma, foldlM_cons_of_step hname, foldlM_cons_of_step hcolon,
      foldlM_append_of_reads hvalue, ih hrest next value ((name, first) :: done)]
    simp only [List.reverse_cons, List.append_assoc, List.cons_append, List.nil_append]

theorem foldlM_tokens (v : Json) : Reads v := by
  induction v using Json.induction with
  | scalar s =>
    intro outer
    rw [tokens]
    rfl
  | array items ih =>
    intro outer
    have hbegin : step (.value outer) .beginArray = some (.firstItem outer) := rfl
    cases items with
    | nil =>
      rw [tokens]
      rfl
    | cons item items =>
      obtain ⟨hitem, hitems⟩ := List.forall_mem_cons.mp ih
      simp only [tokens, List.cons_append, List.append_assoc]
      rw [foldlM_cons_of_step hbegin, List.foldlM_append, foldlM_firstItem, ← List.foldlM_append,
        foldlM_append_of_reads hitem]
      exact foldlM_itemTokens hitems item [] outer
  | object members ih =>
    intro outer
    have hbegin : step (.value outer) .beginObject = some (.firstName outer) := rfl
    cases members with
    | nil =>
      rw [tokens]
      rfl
    | cons m members =>
      obtain ⟨name, value⟩ := m
      obtain ⟨hvalue, hmembers⟩ := List.forall_mem_cons.mp ih
      have hname : step (.firstName outer) (.scalar (.string name)) = some (.colon [] name outer) := rfl
      have hcolon : step (.colon [] name outer) .colon = some (.value (.object [] name :: outer)) := rfl
      simp only [tokens, List.cons_append, List.append_assoc]
      rw [foldlM_cons_of_step hbegin, foldlM_cons_of_step hname, foldlM_cons_of_step hcolon,
        foldlM_append_of_reads hvalue]
      exact foldlM_memberTokens hmembers name value [] outer

end Read

/-- Reading takes the text of every value back to the value. -/
theorem read?_pretty (v : Json) : read? v.pretty = some v := by
  have hprinted := tokens?_write v 0 [] ends_nil
  have hnil : tokens? [] = some [] := by rw [tokens?]
  rw [List.append_nil, hnil, Option.map_some, List.append_nil] at hprinted
  rw [read?, pretty, String.toList_ofList, hprinted, Option.bind_some, ofTokens?, foldlM_tokens v []]
  rfl

end A64Lowering.Json
