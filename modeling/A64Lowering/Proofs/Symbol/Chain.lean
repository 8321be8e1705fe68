import Mathlib
import A64Lowering.Symbol.Table

/-! # The way out of a scope

* `SymbolTable.Nested`: every scope is inside an older one. `chain_eq`: then a chain is its first
  scope and the chain of the parent.
* `SymbolTable.Grows`: all scopes are kept, and each new one is inside an older one.
* `Grows.lookup?`: growth changes nothing of what a name is bound to on the way out of a scope. -/
namespace A64Lowering.SymbolTable
set_option autoImplicit false

variable {t u w : SymbolTable}

/-! ## Chains -/

/-- Every scope is inside an older one, or inside none. -/
def Nested (t : SymbolTable) : Prop :=
  ∀ id s parent, t.scope? id = some s → s.parent = some parent → parent < id

/-- Any bound above the scope's own position lets the walk go to its end. -/
theorem walk_eq (nested : t.Nested) :
    ∀ (id : ScopeId) (steps : Nat), id < steps → t.walk steps id = t.walk (id + 1) id := by
  intro id
  induction id using Nat.strong_induction_on with
  | _ id ih =>
    intro steps hsteps
    obtain ⟨steps, rfl⟩ := Nat.exists_eq_succ_of_ne_zero (Nat.ne_zero_of_lt hsteps)
    rw [walk, walk]
    cases hs : t.scope? id with
    | none => rfl
    | some s =>
      cases hparent : s.parent with
      | none => simp [hparent]
      | some parent =>
        have hlt : parent < id := nested id s parent hs hparent
        simp only [hparent]
        rw [ih parent hlt steps (hlt.trans_le (Nat.le_of_lt_succ hsteps)), ih parent hlt id hlt]

theorem chain_eq (nested : t.Nested) {id : ScopeId} {s : Scope} (hs : t.scope? id = some s) :
    t.chain id = s :: (s.parent.map t.chain).getD [] := by
  have hid : id < t.scopeCount := scope?_lt hs
  rw [chain, walk_eq nested id _ hid, walk, hs]
  cases hparent : s.parent with
  | none => simp [hparent]
  | some parent =>
    have hlt : parent < id := nested id s parent hs hparent
    simp only [hparent, Option.map_some, Option.getD_some, chain]
    rw [walk_eq nested parent _ hlt, walk_eq nested parent _ (hlt.trans hid)]

/-! ## Where a scope comes from -/

theorem scope?_of_pushScope {parent id : ScopeId} {name : String} {s : Scope}
    (hs : (t.pushScope parent name).2.scope? id = some s) :
    (id = t.scopeCount ∧ s = .ofName (some parent) name) ∨ t.scope? id = some s := by
  rw [scope?_pushScope] at hs
  split at hs
  · next hlast => exact .inl ⟨hlast, (Option.some.inj hs).symm⟩
  · exact .inr hs

theorem scope?_of_modifyScope {changed id : ScopeId} {f : Scope → Scope} {s : Scope}
    (hs : (t.modifyScope changed f).scope? id = some s) :
    (changed = id ∧ ∃ old, t.scope? id = some old ∧ f old = s) ∨ t.scope? id = some s := by
  rw [scope?_modifyScope] at hs
  split at hs
  · next hsame => exact .inl ⟨hsame, Option.map_eq_some_iff.mp hs⟩
  · exact .inr hs

/-! ## Growth -/

/-- All scopes of `t` are in `u`, unchanged, and each further scope is inside an older one. -/
structure Grows (t u : SymbolTable) : Prop where
  kept : ∀ id s, t.scope? id = some s → u.scope? id = some s
  inner : ∀ id s, t.scopeCount ≤ id → u.scope? id = some s →
    ∃ parent, s.parent = some parent ∧ parent < id

namespace Grows

theorem refl (t : SymbolTable) : Grows t t := by
  refine ⟨fun _ _ hs => hs, ?_⟩
  intro id s hid hs
  exact absurd (scope?_lt hs) (Nat.not_lt.mpr hid)

theorem scope?_eq (h : Grows t u) {id : ScopeId} (hid : id < t.scopeCount) :
    u.scope? id = t.scope? id := by
  have hs : t.scope? id = some t.scopes[id] := List.getElem?_eq_getElem hid
  rw [hs, h.kept id _ hs]

theorem scopeCount_le (h : Grows t u) : t.scopeCount ≤ u.scopeCount := by
  by_contra hlt
  obtain ⟨s, hs⟩ := Option.isSome_iff_exists.mp (isSome_scope?.mpr (Nat.not_le.mp hlt))
  exact absurd (scope?_lt (h.kept _ s hs)) (Nat.lt_irrefl _)

theorem trans (h : Grows t u) (h' : Grows u w) : Grows t w := by
  refine ⟨fun id s hs => h'.kept id s (h.kept id s hs), ?_⟩
  intro id s hid hs
  rcases Nat.lt_or_ge id u.scopeCount with hold | hnew
  · exact h.inner id s hid (h'.scope?_eq hold ▸ hs)
  · exact h'.inner id s hnew hs

theorem pushScope (h : Grows t u) {parent : ScopeId} (hparent : parent < u.scopeCount)
    (name : String) : Grows t (u.pushScope parent name).2 := by
  constructor
  · intro id s hs
    rw [scope?_pushScope, if_neg (scope?_lt (h.kept id s hs)).ne]
    exact h.kept id s hs
  · intro id s hid hs
    rcases scope?_of_pushScope hs with ⟨rfl, rfl⟩ | hold
    · exact ⟨parent, rfl, hparent⟩
    · exact h.inner id s hid hold

/-- A change of a new scope is part of the growth, as long as the scope stays where it is. -/
theorem modifyScope (h : Grows t u) {changed : ScopeId} (hchanged : t.scopeCount ≤ changed)
    {f : Scope → Scope} (hf : ∀ s, (f s).parent = s.parent) : Grows t (u.modifyScope changed f) := by
  constructor
  · intro id s hs
    rw [scope?_modifyScope, if_neg ((scope?_lt hs).trans_le hchanged).ne']
    exact h.kept id s hs
  · intro id s hid hs
    rcases scope?_of_modifyScope hs with ⟨-, old, hold, rfl⟩ | hold
    · rw [hf]
      exact h.inner id old hid hold
    · exact h.inner id s hid hold

theorem walk (h : Grows t u) (ht : t.Nested) :
    ∀ (steps : Nat) {id : ScopeId}, id < t.scopeCount → u.walk steps id = t.walk steps id
  | 0, _, _ => rfl
  | steps + 1, id, hid => by
    rw [SymbolTable.walk, SymbolTable.walk, h.scope?_eq hid]
    cases hs : t.scope? id with
    | none => rfl
    | some s =>
      cases hparent : s.parent with
      | none => simp [hparent]
      | some parent =>
        have hlt : parent < id := ht id s parent hs hparent
        simp only [hparent]
        rw [h.walk ht steps (hlt.trans hid)]

theorem chain (h : Grows t u) (ht : t.Nested) {id : ScopeId} (hid : id < t.scopeCount) :
    u.chain id = t.chain id := by
  unfold SymbolTable.chain
  rw [h.walk ht _ hid, walk_eq ht id _ (hid.trans_le h.scopeCount_le), walk_eq ht id _ hid]

/-- What a name is bound to on the way out of a scope stays when the table grows. -/
theorem lookup? (h : Grows t u) (ht : t.Nested) {id : ScopeId} (hid : id < t.scopeCount)
    (name : String) : u.lookup? id name = t.lookup? id name := by
  rw [SymbolTable.lookup?, SymbolTable.lookup?, h.chain ht hid]

/-- Without its new scopes the table is what it was. -/
theorem truncate (h : Grows t u) : u.truncate t.scopeCount = t := by
  have hscopes : u.scopes.take t.scopeCount = t.scopes := by
    apply List.ext_getElem?
    intro id
    rcases Nat.lt_or_ge id t.scopeCount with hold | hnew
    · rw [List.getElem?_take_of_lt hold]
      exact h.scope?_eq hold
    · rw [List.getElem?_take_eq_none hnew, List.getElem?_eq_none hnew]
  rw [SymbolTable.truncate, hscopes]

end Grows
end A64Lowering.SymbolTable
