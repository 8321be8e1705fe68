/-! # Maps from names, in name order

* `NameMap α`: finitely many names with a value each, listed in code point order of the names.
* `get?`, `insert`: the value under a name, and setting it.
* `ext_get?`: two maps with the same values under all names are equal, since the order leaves one
  listing for each content. -/
namespace A64Lowering
set_option autoImplicit false

/-- A value for each of finitely many names, listed by name in code point order. -/
structure NameMap (α : Type) where
  entries : List (String × α)
  sorted : entries.Pairwise (fun a b => a.1 < b.1)

namespace NameMap

variable {α : Type}

def empty : NameMap α := ⟨[], .nil⟩

instance : Inhabited (NameMap α) := ⟨empty⟩

def get? (m : NameMap α) (name : String) : Option α := m.entries.lookup name

def contains (m : NameMap α) (name : String) : Bool := (m.get? name).isSome

def size (m : NameMap α) : Nat := m.entries.length

def names (m : NameMap α) : List String := m.entries.map (·.1)

/-- Puts `value` under `name` into a sorted listing, in place of the value found there. -/
def place (name : String) (value : α) : List (String × α) → List (String × α)
  | [] => [(name, value)]
  | (other, old) :: rest =>
    if name = other then (name, value) :: rest
    else if name < other then (name, value) :: (other, old) :: rest
    else (other, old) :: place name value rest

theorem mem_place {name : String} {value : α} {entry : String × α} :
    ∀ {entries : List (String × α)}, entry ∈ place name value entries →
      entry = (name, value) ∨ entry ∈ entries
  | [], h => .inl (List.mem_singleton.mp h)
  | (other, old) :: rest, h => by
    rw [place] at h
    split at h
    · rcases List.mem_cons.mp h with h | h
      · exact .inl h
      · exact .inr (List.mem_cons_of_mem _ h)
    · split at h
      · exact List.mem_cons.mp h
      · rcases List.mem_cons.mp h with h | h
        · exact .inr (h ▸ List.mem_cons_self)
        · exact (mem_place h).imp id (List.mem_cons_of_mem _)

theorem sorted_place (name : String) (value : α) :
    ∀ {entries : List (String × α)}, entries.Pairwise (fun a b => a.1 < b.1) →
      (place name value entries).Pairwise (fun a b => a.1 < b.1)
  | [], _ => List.pairwise_singleton _ _
  | (other, old) :: rest, h => by
    have ⟨first, tail⟩ := List.pairwise_cons.mp h
    rw [place]
    split
    · next same =>
      subst same
      exact List.pairwise_cons.mpr ⟨first, tail⟩
    · next differ =>
      split
      · next before =>
        refine List.pairwise_cons.mpr ⟨fun entry mem => ?_, h⟩
        rcases List.mem_cons.mp mem with rfl | mem
        · exact before
        · exact String.lt_trans before (first entry mem)
      · next notBefore =>
        have after : other < name :=
          (Std.lt_trichotomy name other).resolve_left notBefore |>.resolve_left differ
        refine List.pairwise_cons.mpr ⟨fun entry mem => ?_, sorted_place name value tail⟩
        rcases mem_place mem with rfl | mem
        · exact after
        · exact first entry mem

/-- Sets the value under `name`, in place of the one found there. -/
def insert (m : NameMap α) (name : String) (value : α) : NameMap α :=
  ⟨place name value m.entries, sorted_place name value m.sorted⟩

/-! ## Lookup -/

theorem lookup_place (name : String) (value : α) (key : String) :
    ∀ entries : List (String × α),
      (place name value entries).lookup key = if key = name then some value else entries.lookup key
  | [] => by simp only [place, List.lookup_cons]; split <;> simp_all
  | (other, old) :: rest => by
    rw [place]
    split
    · next same => subst same; simp only [List.lookup_cons]; split <;> simp_all
    · next differ =>
      split
      · simp only [List.lookup_cons]; split <;> simp_all
      · simp only [List.lookup_cons, lookup_place name value key rest]
        by_cases same : key = other
        · subst same; simp [Ne.symm differ]
        · simp [beq_eq_false_iff_ne.mpr same]

/-- Setting a value changes what is found under that name only. -/
@[simp] theorem get?_insert (m : NameMap α) (name : String) (value : α) (key : String) :
    (m.insert name value).get? key = if key = name then some value else m.get? key :=
  lookup_place name value key m.entries

@[simp] theorem get?_empty (key : String) : (empty : NameMap α).get? key = none := rfl

theorem lookup_eq_none_of_lt {key : String} :
    ∀ {entries : List (String × α)}, (∀ entry ∈ entries, key < entry.1) → entries.lookup key = none
  | [], _ => rfl
  | (other, old) :: rest, h => by
    have differ : key ≠ other := fun same =>
      String.lt_irrefl other (same ▸ h (other, old) List.mem_cons_self)
    rw [List.lookup_cons, beq_eq_false_iff_ne.mpr differ]
    exact lookup_eq_none_of_lt fun entry mem => h entry (List.mem_cons_of_mem _ mem)

theorem entries_eq_of_lookup_eq :
    ∀ {first second : List (String × α)}, first.Pairwise (fun a b => a.1 < b.1) →
      second.Pairwise (fun a b => a.1 < b.1) → (∀ key, first.lookup key = second.lookup key) →
      first = second
  | [], [], _, _, _ => rfl
  | [], (other, old) :: rest, _, _, h => by simpa using h other
  | (name, value) :: rest, [], _, _, h => by simpa using h name
  | (name, value) :: first, (other, old) :: second, hf, hs, h => by
    have ⟨headF, tailF⟩ := List.pairwise_cons.mp hf
    have ⟨headS, tailS⟩ := List.pairwise_cons.mp hs
    rcases Std.lt_trichotomy name other with before | same | after
    · have none : ((other, old) :: second).lookup name = none := lookup_eq_none_of_lt fun entry mem => by
        rcases List.mem_cons.mp mem with rfl | mem
        · exact before
        · exact String.lt_trans before (headS entry mem)
      have found := h name
      rw [none] at found
      simp at found
    · subst same
      have value_eq : value = old := by simpa using h name
      subst value_eq
      congr 1
      refine entries_eq_of_lookup_eq tailF tailS fun key => ?_
      by_cases same : key = name
      · subst same
        rw [lookup_eq_none_of_lt headF, lookup_eq_none_of_lt headS]
      · have := h key
        simpa only [List.lookup_cons, beq_eq_false_iff_ne.mpr same] using this
    · have none : ((name, value) :: first).lookup other = none := lookup_eq_none_of_lt fun entry mem => by
        rcases List.mem_cons.mp mem with rfl | mem
        · exact after
        · exact String.lt_trans after (headF entry mem)
      have found := h other
      rw [none] at found
      simp at found

/-- Maps with the same values under all names are equal. -/
theorem ext_get? {m n : NameMap α} (h : ∀ name, m.get? name = n.get? name) : m = n := by
  have := entries_eq_of_lookup_eq m.sorted n.sorted h
  cases m; cases n; subst this; rfl

end NameMap
end A64Lowering
