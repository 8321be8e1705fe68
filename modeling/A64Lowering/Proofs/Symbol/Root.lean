import Mathlib
import A64Lowering.Proofs.Symbol.Building

/-! # The root of a table

* `SymbolTable.Reachable`: the tables that changes make out of the initial one.
* `Rooted`: the global scope is the only one that is inside none, as `rooted_of_reachable` says.
* `Nearest`: the first scope with a name on the way out. `isGlobal_of_nearest`: a name counts as
  global if the nearest scope that bears the name of the global scope binds it.
* `isGlobal_iff_bound_root`: where only the root bears that name, a name counts as global exactly if
  the root binds it. -/
namespace A64Lowering.SymbolTable
set_option autoImplicit false

variable {t u : SymbolTable}

/-! ## Tables that changes can make -/

/-- One change of a table: a scope is opened or an instance built inside a scope that exists, or a
name is bound or declared. -/
inductive Step (t : SymbolTable) : SymbolTable → Prop where
  | pushScope {parent : ScopeId} (inside : (t.scope? parent).isSome) (name : String) :
      Step t (t.pushScope parent name).2
  | insert (scope : ScopeId) (name : String) (entry : Entry) : Step t (t.insert scope name entry)
  | declare {scope : ScopeId} {name : String} {ty : Ty} {vregs vregs' : VRegSupply} {vreg : VReg}
      {u : SymbolTable} (declared : t.declare scope name ty vregs = some (vreg, u, vregs')) :
      Step t u
  | instantiate {parent : ScopeId} (inside : (t.scope? parent).isSome) (proto : ScopeId)
      (name : String) (vregs : VRegSupply) : Step t (t.instantiate proto name parent vregs).2.1

/-- Some number of changes leads from the initial table to this one. -/
def Reachable (t : SymbolTable) : Prop := Relation.ReflTransGen Step initial t

/-- The global scope is inside none and bears its name; every other scope is inside an older one. -/
structure Rooted (t : SymbolTable) : Prop where
  root : ∃ s, t.scope? globalScope = some s ∧ s.name = globalScopeName ∧ s.parent = none
  inner : ∀ id s, t.scope? id = some s → id ≠ globalScope →
    ∃ parent, s.parent = some parent ∧ parent < id

namespace Rooted

theorem nested (h : t.Rooted) : t.Nested := by
  intro id s parent hs hparent
  by_cases hid : id = globalScope
  · obtain ⟨root, hroot, -, hnone⟩ := h.root
    rw [hid, hroot] at hs
    cases hs
    rw [hnone] at hparent
    cases hparent
  · obtain ⟨parent', hparent', hlt⟩ := h.inner id s hs hid
    rw [hparent] at hparent'
    cases hparent'
    exact hlt

theorem of_grows (h : t.Rooted) (hu : t.Grows u) : u.Rooted := by
  constructor
  · obtain ⟨s, hs, hname⟩ := h.root
    exact ⟨s, hu.kept _ s hs, hname⟩
  · intro id s hs hid
    rcases Nat.lt_or_ge id t.scopeCount with hold | hnew
    · exact h.inner id s (hu.scope?_eq hold ▸ hs) hid
    · exact hu.inner id s hnew hs

theorem modifyScope (h : t.Rooted) (changed : ScopeId) {f : Scope → Scope}
    (hname : ∀ s, (f s).name = s.name) (hparent : ∀ s, (f s).parent = s.parent) :
    (t.modifyScope changed f).Rooted := by
  constructor
  · obtain ⟨s, hs, hroot⟩ := h.root
    rw [scope?_modifyScope, hs]
    split
    · exact ⟨f s, rfl, by rw [hname, hparent]; exact hroot⟩
    · exact ⟨s, rfl, hroot⟩
  · intro id s hs hid
    rcases scope?_of_modifyScope hs with ⟨-, old, hold, rfl⟩ | hold
    · rw [hparent]
      exact h.inner id old hold hid
    · exact h.inner id s hold hid

theorem initial : initial.Rooted := by
  constructor
  · exact ⟨_, rfl, rfl, rfl⟩
  · intro id s hs hid
    have hlt : id < 1 := scope?_lt hs
    exact absurd (Nat.lt_one_iff.mp hlt) hid

theorem step (h : t.Rooted) (hstep : t.Step u) : u.Rooted := by
  cases hstep with
  | pushScope inside name =>
    exact h.of_grows ((Grows.refl t).pushScope (isSome_scope?.mp inside) name)
  | insert scope name entry => exact h.modifyScope scope (fun _ => rfl) fun _ => rfl
  | declare declared =>
    obtain ⟨_, _, hu⟩ := Option.map_eq_some_iff.mp declared
    cases hu
    exact h.modifyScope _ (fun _ => rfl) fun _ => rfl
  | instantiate inside proto name vregs =>
    exact h.of_grows (grows_instantiate (isSome_scope?.mp inside) proto name vregs).1

end Rooted

theorem rooted_of_reachable (h : t.Reachable) : t.Rooted := by
  induction h with
  | refl => exact Rooted.initial
  | tail _ hstep ih => exact ih.step hstep

/-! ## The nearest scope with a name -/

/-- `outer` is the scope `id` itself or one that it is inside of. -/
inductive Encloses (t : SymbolTable) (outer : ScopeId) : ScopeId → Prop where
  | here : Encloses t outer outer
  | inside {id parent : ScopeId} {s : Scope} (found : t.scope? id = some s)
      (parent_eq : s.parent = some parent) (out : Encloses t outer parent) : Encloses t outer id

/-- `outer` is the first scope that bears `name` on the way out of a scope. -/
inductive Nearest (t : SymbolTable) (name : String) (outer : ScopeId) : ScopeId → Prop where
  | here {s : Scope} (found : t.scope? outer = some s) (named : s.name = name) :
      Nearest t name outer outer
  | inside {id parent : ScopeId} {s : Scope} (found : t.scope? id = some s) (unnamed : s.name ≠ name)
      (parent_eq : s.parent = some parent) (out : Nearest t name outer parent) :
      Nearest t name outer id

section Nearest
variable {name : String} {outer id : ScopeId}

theorem Nearest.encloses (h : t.Nearest name outer id) :
    t.Encloses outer id ∧ ∃ s, t.scope? outer = some s ∧ s.name = name := by
  induction h with
  | here found named => exact ⟨.here, _, found, named⟩
  | inside found _ parent_eq _ ih => exact ⟨.inside found parent_eq ih.1, ih.2⟩

theorem exists_nearest_root (h : t.Rooted) :
    ∀ (id : ScopeId), (t.scope? id).isSome → ∃ outer, t.Nearest globalScopeName outer id := by
  intro id
  induction id using Nat.strong_induction_on with
  | _ id ih =>
    intro hid
    obtain ⟨s, hs⟩ := Option.isSome_iff_exists.mp hid
    by_cases hname : s.name = globalScopeName
    · exact ⟨id, .here hs hname⟩
    · have hinner : id ≠ globalScope := by
        rintro rfl
        obtain ⟨root, hroot, hrootName, -⟩ := h.root
        rw [hroot] at hs
        cases hs
        exact hname hrootName
      obtain ⟨parent, hparent, hlt⟩ := h.inner id s hs hinner
      obtain ⟨outer, houter⟩ := ih parent hlt (isSome_scope?.mpr (hlt.trans (scope?_lt hs)))
      exact ⟨outer, .inside hs hname hparent houter⟩

/-- A name counts as global if the nearest scope named like the global one binds it. -/
theorem isGlobal_of_nearest (nested : t.Nested) (h : t.Nearest globalScopeName outer id)
    (name : String) : t.isGlobal id name = (t.bound? outer name).isSome := by
  induction h with
  | here found named =>
    rw [isGlobal, chain_eq nested found, List.find?_cons_of_pos (by simpa using named), bound?, found]
    rfl
  | inside found unnamed parent_eq _ ih =>
    rw [← ih, isGlobal, chain_eq nested found, List.find?_cons_of_neg (by simpa using unnamed),
      parent_eq]
    rfl

end Nearest

/-- Where no scope around `scope` but the root bears the name of the global scope, a name counts as
global exactly if the root binds it. -/
theorem isGlobal_iff_bound_root (reached : t.Reachable) {scope : ScopeId}
    (hscope : (t.scope? scope).isSome)
    (sole : ∀ outer s, t.Encloses outer scope → t.scope? outer = some s →
      s.name = globalScopeName → outer = globalScope) (name : String) :
    t.isGlobal scope name = true ↔ (t.bound? globalScope name).isSome = true := by
  have rooted := rooted_of_reachable reached
  obtain ⟨outer, houter⟩ := exists_nearest_root rooted scope hscope
  obtain ⟨hencloses, s, hs, hname⟩ := houter.encloses
  have hroot : outer = globalScope := sole outer s hencloses hs hname
  rw [isGlobal_of_nearest rooted.nested houter name, hroot]

def counter (register : UInt32) : Entry := .var ⟨.int, none, ⟨register⟩, none⟩

def withLayout : SymbolTable :=
  ((initial.pushScope globalScope "Point").2.insert 1 "g" (counter 0)).insert globalScope "g"
    (counter 1)

/-- An instance whose field `g` shadows a global variable. -/
def withInstance : SymbolTable := (withLayout.instantiate 1 "p" globalScope ⟨2⟩).2.1

theorem isGlobal_withInstance :
    withInstance.Reachable ∧ (withInstance.scope? 2).isSome = true ∧
      (∀ outer s, withInstance.Encloses outer 2 → withInstance.scope? outer = some s →
        s.name = globalScopeName → outer = globalScope) ∧
      (withInstance.isGlobal 2 "g" = true ↔
        (withInstance.bound? globalScope "g").isSome = true) := by
  have reached : withInstance.Reachable :=
    .tail (.tail (.tail (.tail .refl (.pushScope rfl "Point")) (.insert 1 "g" (counter 0)))
      (.insert globalScope "g" (counter 1))) (.instantiate rfl 1 "p" ⟨2⟩)
  have hscope : (withInstance.scope? 2).isSome = true := by decide +kernel
  have names : withInstance.scopes.map (·.name) = [globalScopeName, "Point", "p"] := by
    decide +kernel
  have sole : ∀ outer s, withInstance.Encloses outer 2 → withInstance.scope? outer = some s →
      s.name = globalScopeName → outer = globalScope := by
    intro outer s _ hs hname
    have hget : (withInstance.scopes.map (·.name))[outer]? = some globalScopeName := by
      rw [List.getElem?_map, show withInstance.scopes[outer]? = some s from hs, Option.map_some,
        hname]
    rw [names] at hget
    match outer with
    | 0 => rfl
    | 1 | 2 => exact absurd hget (by decide)
    | _ + 3 => exact absurd hget nofun
  exact ⟨reached, hscope, sole, isGlobal_iff_bound_root reached hscope sole "g"⟩

/-- A scope inside the global one that bears the same name. -/
def withNamesake : SymbolTable :=
  (initial.pushScope globalScope globalScopeName).2.insert globalScope "g" (counter 0)

theorem not_isGlobal_withNamesake :
    ¬ ∀ t : SymbolTable, t.Reachable → ∀ scope : ScopeId, (t.scope? scope).isSome = true →
      ∀ name, t.isGlobal scope name = true ↔ (t.bound? globalScope name).isSome = true := by
  intro h
  have reached : withNamesake.Reachable :=
    .tail (.tail .refl (.pushScope rfl globalScopeName)) (.insert globalScope "g" (counter 0))
  have hbound : (withNamesake.bound? globalScope "g").isSome = true := rfl
  exact absurd ((h withNamesake reached 1 rfl "g").mpr hbound) (by decide)

end A64Lowering.SymbolTable
