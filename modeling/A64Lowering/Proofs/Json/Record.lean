import Mathlib
import A64Lowering.Json.Record

/-! # Records read back

* `fields?_record`: an object with different names has the fields that it was made of.
* `listOf?_ofList`, `optional?_ofOption`: lists and optional values read back if their parts do.
* `uint32?_ofWord` and others: words, texts and truth values read back. -/
namespace A64Lowering.Json
set_option autoImplicit false

variable {α : Type} {read : Json → Option α} {write : α → Json}

/-! ## Fields -/

theorem lookup_of_mem {members : List (String × Json)} (nodup : (members.map Prod.fst).Nodup)
    {m : String × Json} (hm : m ∈ members) : members.lookup m.1 = some m.2 := by
  induction members with
  | nil => exact absurd hm List.not_mem_nil
  | cons first members ih =>
    rw [List.map_cons, List.nodup_cons] at nodup
    rw [List.lookup_cons]
    rcases List.mem_cons.mp hm with rfl | hrest
    · rw [beq_self_eq_true]
    · have hne : m.1 ≠ first.1 := by
        intro heq
        exact nodup.1 (heq ▸ List.mem_map_of_mem hrest)
      rw [beq_eq_false_iff_ne.mpr hne]
      exact ih nodup.2 hrest

theorem namedMembers?_some (members : List (String × Json)) :
    namedMembers? (members.map fun (name, value) => (some name, value)) = some members := by
  unfold namedMembers?
  induction members with
  | nil => rfl
  | cons m members ih =>
    rw [List.map_cons, List.mapM_cons, ih]
    rfl

/-- A record has the fields that it was made of. -/
theorem fields?_record {members : List (String × Json)} (nodup : (members.map Prod.fst).Nodup) :
    fields? (members.map Prod.fst) (record members) = some (members.map fun m => some m.2) := by
  have honce : ((members.map Prod.fst).any fun name => 1 < members.countP (·.1 == name)) = false := by
    rw [List.any_eq_false]
    intro name _
    have hcount := List.nodup_iff_count_le_one.mp nodup name
    rw [List.count_eq_countP, List.countP_map] at hcount
    rw [decide_eq_true_eq, Nat.not_lt]
    exact hcount
  have hlookup : (members.map Prod.fst).map (fun name => members.lookup name)
      = members.map fun m => some m.2 := by
    rw [List.map_map]
    exact List.map_congr_left fun m hm => lookup_of_mem nodup hm
  unfold fields? record
  show slots? _ (.object _) = _
  unfold slots?
  simp only [namedMembers?_some, Option.bind_eq_bind, Option.bind_some, honce, hlookup]
  rfl

/-! ## Lists and optional values -/

theorem listOf?_ofList {as : List α} (h : ∀ a ∈ as, read (write a) = some a) :
    listOf? read (ofList write as) = some as := by
  unfold ofList listOf?
  show (as.map write).mapM read = some as
  induction as with
  | nil => rfl
  | cons a as ih =>
    obtain ⟨hfirst, hrest⟩ := List.forall_mem_cons.mp h
    rw [List.map_cons, List.mapM_cons, hfirst, ih hrest]
    rfl

/-- An optional value reads back unless what it holds is written as `null`. -/
theorem optional?_ofOption (h : ∀ a, read (write a) = some a) (hnull : ∀ a, write a ≠ .null)
    (a : Option α) : optional? read (some (ofOption write a)) = some a := by
  cases a with
  | none => rfl
  | some a =>
    unfold optional? ofOption
    split
    · next hnone => cases hnone
    · next hsome => exact absurd (Option.some.inj hsome) (hnull a)
    · next v _ hv =>
      cases hv
      rw [h]
      rfl

/-! ## Scalars -/

theorem text?_ofText (s : String) : (Json.string s).text? = some s := rfl

theorem bool?_ofBool (b : Bool) : (Json.bool b).bool? = some b := rfl

theorem integer?_ofInt (n : Int) : (Json.integer n).integer? = some n := rfl

theorem uint32?_ofWord (w : UInt32) : (Json.integer w.toNat).uint32? = some w := by
  rw [uint32?, integer?_ofInt, Option.bind_some, Word.uint32?_toNat]

theorem uint64?_ofWord (w : UInt64) : (Json.integer w.toNat).uint64? = some w := by
  rw [uint64?, integer?_ofInt, Option.bind_some, Word.uint64?_toNat]

theorem int64?_ofWord (w : Int64) : (Json.integer w.toInt).int64? = some w := by
  rw [int64?, integer?_ofInt, Option.bind_some, Word.int64?_toInt]

end A64Lowering.Json
