import Mathlib
import A64Lowering.Symbol.Instance

/-! # The fields of a scope

`Scope.fields` lists the variables of a scope with their types: `mem_fields` says which, and
`fields_congr` that the ordered names and the types of the variables determine the listing. -/
namespace A64Lowering
set_option autoImplicit false

/-! ## Listings by name -/

namespace NameMap
variable {α β : Type} {entries : List (String × α)}

theorem mem_iff_lookup (sorted : entries.Pairwise fun a b => a.1 < b.1) {name : String} {a : α} :
    (name, a) ∈ entries ↔ entries.lookup name = some a := by
  induction entries with
  | nil => simp
  | cons entry rest ih =>
    obtain ⟨other, b⟩ := entry
    have ⟨first, tail⟩ := List.pairwise_cons.mp sorted
    rw [List.mem_cons, ih tail, List.lookup_cons]
    by_cases same : name = other
    · subst same
      rw [lookup_eq_none_of_lt first]
      simp [eq_comm]
    · simp [same, beq_eq_false_iff_ne.mpr same]

/-- The part of a listing that has an image is a listing of the images. -/
theorem lookup_filterMap (sorted : entries.Pairwise fun a b => a.1 < b.1) (f : α → Option β)
    (name : String) :
    (entries.filterMap fun (key, a) => (f a).map (key, ·)).lookup name
      = (entries.lookup name).bind f := by
  induction entries with
  | nil => rfl
  | cons entry rest ih =>
    obtain ⟨other, a⟩ := entry
    have ⟨first, tail⟩ := List.pairwise_cons.mp sorted
    rw [List.lookup_cons]
    by_cases same : name = other
    · subst same
      cases ha : f a with
      | none =>
        rw [List.filterMap_cons_none (by simp [ha]), ih tail, lookup_eq_none_of_lt first]
        simp [ha]
      | some b =>
        rw [List.filterMap_cons_some (b := (name, b)) (by simp [ha])]
        simp [ha]
    · rw [beq_eq_false_iff_ne.mpr same]
      cases ha : f a with
      | none => rw [List.filterMap_cons_none (by simp [ha]), ih tail]
      | some b =>
        rw [List.filterMap_cons_some (b := (other, b)) (by simp [ha]), List.lookup_cons,
          beq_eq_false_iff_ne.mpr same, ih tail]

theorem sorted_filterMap (sorted : entries.Pairwise fun a b => a.1 < b.1) (f : α → Option β) :
    (entries.filterMap fun (key, a) => (f a).map (key, ·)).Pairwise fun a b => a.1 < b.1 := by
  refine List.Pairwise.filterMap _ ?_ sorted
  intro a a' lt b hb b' hb'
  obtain ⟨_, -, rfl⟩ := Option.map_eq_some_iff.mp hb
  obtain ⟨_, -, rfl⟩ := Option.map_eq_some_iff.mp hb'
  exact lt

end NameMap

/-! ## Variables and fields -/

theorem Ty.structName?_eq_some {ty : Ty} {name : String} :
    ty.structName? = some name ↔ ty = .struct name := by
  cases ty <;> simp [structName?]

namespace Scope
variable {s p : Scope} {name : String}

theorem get?_bind (s : Scope) (field : String) (entry : Entry) (name : String) :
    (s.bind field entry).entries.get? name
      = if name = field then some entry else s.entries.get? name :=
  NameMap.get?_insert s.entries field entry name

theorem get?_of_bind {s : Scope} {field : String} {entry other : Entry}
    (h : (s.bind field entry).entries.get? name = some other) :
    (name = field ∧ entry = other) ∨ s.entries.get? name = some other := by
  rw [get?_bind] at h
  split at h
  · next hname => exact .inl ⟨hname, Option.some.inj h⟩
  · exact .inr h

theorem var?_bind (s : Scope) (field : String) (entry : Entry) (name : String) :
    (s.bind field entry).var? name = if name = field then entry.var? else s.var? name := by
  rw [var?, get?_bind]
  split <;> rfl

theorem lookup_vars (s : Scope) (name : String) : s.vars.lookup name = s.var? name :=
  NameMap.lookup_filterMap s.entries.sorted Entry.var? name

theorem mem_vars {v : Variable} : (name, v) ∈ s.vars ↔ s.var? name = some v := by
  rw [← lookup_vars]
  exact NameMap.mem_iff_lookup (NameMap.sorted_filterMap s.entries.sorted Entry.var?)

/-- The fields are the variables with their types. -/
theorem mem_fields {ty : Ty} :
    (name, ty) ∈ s.fields ↔ ∃ v, s.var? name = some v ∧ v.ty = ty := by
  simp only [fields, List.mem_append, List.mem_filterMap, List.mem_map, List.mem_filter]
  constructor
  · rintro (⟨other, -, h⟩ | ⟨⟨other, v⟩, ⟨hmem, -⟩, h⟩)
    · obtain ⟨v, hv, heq⟩ := Option.map_eq_some_iff.mp h
      cases heq
      exact ⟨v, hv, rfl⟩
    · cases h
      exact ⟨v, mem_vars.mp hmem, rfl⟩
  · rintro ⟨v, hv, rfl⟩
    by_cases hordered : name ∈ s.orderedNames
    · exact .inl ⟨name, hordered, by rw [hv]; rfl⟩
    · exact .inr ⟨(name, v), ⟨mem_vars.mpr hv, by simpa using hordered⟩, rfl⟩

/-- The variables with their types, in name order. -/
def types (s : Scope) : List (String × Ty) := s.vars.map fun (name, v) => (name, v.ty)

def typeOf? (entry : Entry) : Option Ty := entry.var?.map Variable.ty

theorem types_eq (s : Scope) :
    s.types = s.entries.entries.filterMap fun (key, entry) => (typeOf? entry).map (key, ·) := by
  unfold types vars
  rw [List.map_filterMap]
  congr
  funext ⟨key, entry⟩
  cases hentry : entry.var? <;> simp [hentry, typeOf?]

theorem types_congr
    (hty : ∀ name, (s.var? name).map Variable.ty = (p.var? name).map Variable.ty) :
    s.types = p.types := by
  rw [types_eq, types_eq]
  refine NameMap.entries_eq_of_lookup_eq (NameMap.sorted_filterMap s.entries.sorted typeOf?)
    (NameMap.sorted_filterMap p.entries.sorted typeOf?) ?_
  intro name
  have hname := hty name
  unfold var? NameMap.get? at hname
  rw [Option.map_bind, Option.map_bind] at hname
  rw [NameMap.lookup_filterMap s.entries.sorted, NameMap.lookup_filterMap p.entries.sorted]
  exact hname

theorem fields_eq (s : Scope) :
    s.fields = s.orderedNames.filterMap
        (fun name => ((s.var? name).map Variable.ty).map fun ty => (name, ty))
      ++ s.types.filter fun (name, _) => !s.orderedNames.contains name := by
  unfold fields types
  rw [List.filter_map]
  congr 2
  funext name
  rw [Option.map_map]
  rfl

/-- Scopes with the same ordered names and with variables of the same types have the same fields. -/
theorem fields_congr (hnames : s.orderedNames = p.orderedNames)
    (hty : ∀ name, (s.var? name).map Variable.ty = (p.var? name).map Variable.ty) :
    s.fields = p.fields := by
  rw [fields_eq, fields_eq, types_congr hty, hnames]
  simp only [hty]

end Scope
end A64Lowering
