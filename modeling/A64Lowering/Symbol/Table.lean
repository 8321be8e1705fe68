import A64Lowering.Symbol.Scope

/-! # The symbol table

* `SymbolTable`: all scopes of a compilation unit. Scope 0 is the global one.
* `SymbolTable.chain`: the scopes from one of them outwards.
* `bound?`, `lookup?`, `isGlobal`: what a name is bound to in one scope, along a chain, and whether
  it is bound at the end of a chain.
* `pushScope`, `insert`, `declare`, `updateVariable`: the ways in which a table grows and changes. -/
namespace A64Lowering
set_option autoImplicit false

/-- The name of the global scope. -/
def globalScopeName : String := "global"

/-- The identifier of the global scope. -/
def globalScope : ScopeId := 0

/-- All scopes of a compilation unit. -/
structure SymbolTable where
  scopes : List Scope

namespace SymbolTable

/-- The table with an empty global scope. -/
def initial : SymbolTable := ⟨[.ofName none globalScopeName]⟩

/-- The scope with this identifier. -/
def scope? (t : SymbolTable) (id : ScopeId) : Option Scope := t.scopes[id]?

def scopeCount (t : SymbolTable) : Nat := t.scopes.length

/-! ## Lookup -/

/-- What `name` is bound to in this scope itself. -/
def bound? (t : SymbolTable) (scope : ScopeId) (name : String) : Option Entry :=
  (t.scope? scope).bind (·.entries.get? name)

/-- The first `steps` scopes from `id` outwards. -/
def walk (t : SymbolTable) : (steps : Nat) → (id : ScopeId) → List Scope
  | 0, _ => []
  | steps + 1, id =>
    match t.scope? id with
    | none => []
    | some s =>
      s :: match s.parent with
        | none => []
        | some parent => t.walk steps parent

/-- The scopes from `id` outwards. A chain without repetition is no longer than the table. -/
def chain (t : SymbolTable) (id : ScopeId) : List Scope := t.walk t.scopeCount id

/-- What `name` is bound to in the nearest scope of the chain that binds it. -/
def lookup? (t : SymbolTable) (scope : ScopeId) (name : String) : Option Entry :=
  (t.chain scope).findSome? (·.entries.get? name)

/-- Whether the nearest scope of the chain that bears the name of the global scope binds `name`. -/
def isGlobal (t : SymbolTable) (scope : ScopeId) (name : String) : Bool :=
  ((t.chain scope).find? (·.name == globalScopeName)).any (·.entries.contains name)

/-- The position of `name` among the ordered names of a scope. -/
def fieldIndex? (t : SymbolTable) (scope : ScopeId) (name : String) : Option Nat :=
  (t.scope? scope).bind (·.orderedNames.idxOf? name)

/-- The variables of the global scope, in name order. -/
def globalVariables (t : SymbolTable) : List (String × Variable) :=
  match t.scope? globalScope with
  | some s => s.vars
  | none => []

/-! ## Change -/

/-- Opens a scope inside `parent`. -/
def pushScope (t : SymbolTable) (parent : ScopeId) (name : String) : ScopeId × SymbolTable :=
  (t.scopeCount, ⟨t.scopes ++ [.ofName (some parent) name]⟩)

def modifyScope (t : SymbolTable) (id : ScopeId) (f : Scope → Scope) : SymbolTable :=
  ⟨t.scopes.modify id f⟩

/-- Binds `name` in a scope; nothing happens if there is no such scope. -/
def insert (t : SymbolTable) (scope : ScopeId) (name : String) (entry : Entry) : SymbolTable :=
  t.modifyScope scope (·.bind name entry)

/-- Binds `name` to a new variable and makes it the last ordered name of the scope, which has to
exist. -/
def declare (t : SymbolTable) (scope : ScopeId) (name : String) (ty : Ty) (vregs : VRegSupply) :
    Option (VReg × SymbolTable × VRegSupply) :=
  (t.scope? scope).map fun _ =>
    let (vreg, vregs) := vregs.draw
    (vreg, t.modifyScope scope (·.declare name ⟨ty, none, vreg, none⟩), vregs)

/-- Changes the variable bound to `name` in a scope; other bindings stay. -/
def updateVariable (t : SymbolTable) (scope : ScopeId) (name : String) (f : Variable → Variable) :
    SymbolTable :=
  match t.bound? scope name with
  | some (.var v) => t.insert scope name (.var (f v))
  | _ => t

/-- The scopes that existed when there were `count` of them. -/
def truncate (t : SymbolTable) (count : Nat) : SymbolTable := ⟨t.scopes.take count⟩

/-! ## How the number of scopes moves -/

@[simp] theorem scopeCount_pushScope (t : SymbolTable) (parent : ScopeId) (name : String) :
    (t.pushScope parent name).2.scopeCount = t.scopeCount + 1 := by
  simp [pushScope, scopeCount]

@[simp] theorem scopeCount_modifyScope (t : SymbolTable) (id : ScopeId) (f : Scope → Scope) :
    (t.modifyScope id f).scopeCount = t.scopeCount := by
  simp [modifyScope, scopeCount]

@[simp] theorem scopeCount_insert (t : SymbolTable) (scope : ScopeId) (name : String)
    (entry : Entry) : (t.insert scope name entry).scopeCount = t.scopeCount :=
  scopeCount_modifyScope ..

/-! ## Which scopes a change leaves -/

theorem scope?_lt {t : SymbolTable} {id : ScopeId} {s : Scope} (h : t.scope? id = some s) :
    id < t.scopeCount :=
  (List.getElem?_eq_some_iff.mp h).1

theorem isSome_scope? {t : SymbolTable} {id : ScopeId} :
    (t.scope? id).isSome = true ↔ id < t.scopeCount := by
  unfold scope? scopeCount
  rw [isSome_getElem?]

theorem scope?_pushScope (t : SymbolTable) (parent : ScopeId) (name : String) (id : ScopeId) :
    (t.pushScope parent name).2.scope? id =
      if id = t.scopeCount then some (.ofName (some parent) name) else t.scope? id := by
  unfold pushScope scope? scopeCount
  split
  · next last => rw [last]; exact List.getElem?_concat_length
  · next notLast =>
    rcases Nat.lt_or_gt_of_ne notLast with old | beyond
    · exact List.getElem?_append_left old
    · rw [List.getElem?_eq_none (by simp; omega), List.getElem?_eq_none (by omega)]

theorem scope?_modifyScope (t : SymbolTable) (changed : ScopeId) (f : Scope → Scope)
    (id : ScopeId) :
    (t.modifyScope changed f).scope? id =
      if changed = id then (t.scope? id).map f else t.scope? id := by
  unfold modifyScope scope?
  rw [List.getElem?_modify]
  split <;> simp

end SymbolTable
end A64Lowering
