import Mathlib
import A64Lowering.Proofs.Symbol.Chain
import A64Lowering.Proofs.Symbol.Fields

/-! # Sound tables

* `SymbolTable.Sound`: every scope is inside an older one, and a scope lays out every struct type.
  `sound_iff` lets a given table be tested.
* `Sound.lookup?`, `Sound.typeScope_lt`: the struct types that are found have prototypes, and the
  types of their fields are looked up in scopes that exist. -/
namespace A64Lowering
set_option autoImplicit false

/-- The prototype, if the name is a struct type. -/
def Entry.layout? : Entry → Option ScopeId
  | struct _ layout _ => some layout
  | _ => none

theorem Entry.layout?_eq_some {entry : Entry} {layout : ScopeId} :
    entry.layout? = some layout ↔ ∃ name vreg, entry = .struct name layout vreg := by
  cases entry <;> simp [layout?]

namespace SymbolTable
variable {t : SymbolTable}

/-- Every scope is inside an older one, and a scope lays out every struct type. -/
structure Sound (t : SymbolTable) : Prop where
  nested : t.Nested
  laidOut : ∀ id s name structName layout vreg, t.scope? id = some s →
    s.entries.get? name = some (.struct structName layout vreg) → (t.scope? layout).isSome

theorem sound_iff :
    t.Sound ↔ ∀ place ∈ t.scopes.zipIdx, (∀ parent ∈ place.1.parent, parent < place.2) ∧
      ∀ bound ∈ place.1.entries.entries, ∀ layout ∈ bound.2.layout?, layout < t.scopeCount := by
  constructor
  · rintro ⟨nested, laidOut⟩ ⟨s, id⟩ hplace
    have hs : t.scope? id = some s := List.mem_zipIdx_iff_getElem?.mp hplace
    refine ⟨fun parent hparent => nested id s parent hs hparent, ?_⟩
    rintro ⟨name, entry⟩ hbound layout hlayout
    obtain ⟨structName, vreg, rfl⟩ := Entry.layout?_eq_some.mp hlayout
    exact isSome_scope?.mp (laidOut id s name structName layout vreg hs
      ((NameMap.mem_iff_lookup s.entries.sorted).mp hbound))
  · intro h
    have hplace : ∀ id s, t.scope? id = some s → (s, id) ∈ t.scopes.zipIdx := fun id s hs =>
      List.mem_zipIdx_iff_getElem?.mpr hs
    constructor
    · exact fun id s parent hs hparent => (h _ (hplace id s hs)).1 parent hparent
    · intro id s name structName layout vreg hs hentry
      have hbound : (name, Entry.struct structName layout vreg) ∈ s.entries.entries :=
        (NameMap.mem_iff_lookup s.entries.sorted).mpr hentry
      exact isSome_scope?.mpr ((h _ (hplace id s hs)).2 _ hbound layout rfl)

instance : DecidablePred Sound := fun _ => decidable_of_iff _ sound_iff.symm

theorem mem_walk {s : Scope} : ∀ {steps : Nat} {id : ScopeId}, s ∈ t.walk steps id →
    ∃ other, t.scope? other = some s
  | 0, _, h => absurd h List.not_mem_nil
  | steps + 1, id, h => by
    rw [walk] at h
    cases hid : t.scope? id with
    | none => simp [hid] at h
    | some here =>
      simp only [hid] at h
      rcases List.mem_cons.mp h with rfl | hout
      · exact ⟨id, hid⟩
      · cases hparent : here.parent with
        | none => simp [hparent] at hout
        | some parent =>
          simp only [hparent] at hout
          exact mem_walk hout

/-- The struct types that are found have prototypes. -/
theorem Sound.lookup? (sound : t.Sound) {id layout : ScopeId} {name structName : String} {vreg : VReg}
    (h : t.lookup? id name = some (.struct structName layout vreg)) : (t.scope? layout).isSome := by
  obtain ⟨s, hs, hentry⟩ := List.exists_of_findSome?_eq_some h
  obtain ⟨other, hother⟩ := mem_walk hs
  exact sound.laidOut other s name structName layout vreg hother hentry

/-- The scope in which the types of the fields of a prototype are looked up. -/
theorem Sound.typeScope_lt (sound : t.Sound) {id : ScopeId} {p : Scope} (hp : t.scope? id = some p) :
    p.parent.getD globalScope < t.scopeCount := by
  have hid := scope?_lt hp
  cases hparent : p.parent with
  | none => exact Nat.zero_lt_of_lt hid
  | some parent => exact (sound.nested id p parent hp hparent).trans hid

end SymbolTable
end A64Lowering
