import A64Lowering.Diagnostic
import A64Lowering.Symbol.Table

/-! # Instances of struct types

* `StructFault`: why a struct type has no instance.
* `SymbolTable.instantiate`: a scope with a new variable for each field of a struct type, and a
  scope of its own under each field that is a struct.

A prototype is the scope that lays out the fields of a struct type. On the way down from one
prototype to those of its fields no name of a prototype may come twice. -/
namespace A64Lowering
set_option autoImplicit false

/-- Why a struct type has no instance. -/
inductive StructFault where
  | unknownStructType (typeName field : String)
  | recursiveStruct (name : String)
  | notAStruct (name : String)
  deriving DecidableEq, Repr

namespace StructFault

def message : StructFault → String
  | unknownStructType typeName field =>
    "Unknown struct type '" ++ typeName ++ "' for field '" ++ field ++ "'"
  | recursiveStruct name => "Struct '" ++ name ++ "' contains itself by value"
  | notAStruct name => "'" ++ name ++ "' does not name a struct type"

/-- The declarations are the program's own. -/
def diagnostic (fault : StructFault) : Diagnostic := .semantic fault.message

end StructFault

/-- The fields of an instance: the ordered names that are variables, then the other variables in
name order. -/
def Scope.fields (s : Scope) : List (String × Ty) :=
  s.orderedNames.filterMap (fun name => (s.var? name).map fun v => (name, v.ty))
    ++ (s.vars.filter fun (name, _) => !s.orderedNames.contains name).map
      fun (name, v) => (name, v.ty)

namespace Instance

/-- Why the construction of an instance ends early. -/
inductive Halt where
  | fault (f : StructFault)
  /-- The prototypes nest deeper than the bound that was given. -/
  | tooDeep
  deriving DecidableEq, Repr

/-- What the construction of an instance changes. -/
structure State where
  symbols : SymbolTable
  vregs : VRegSupply

/-- A step of the construction. What it changed stays when it ends early. -/
abbrev Step := ExceptT Halt (StateM State)

def draw : Step VReg :=
  ExceptT.mk fun st =>
    let (vreg, vregs) := st.vregs.draw
    (.ok vreg, { st with vregs })

def pushScope (parent : ScopeId) (name : String) : Step ScopeId :=
  ExceptT.mk fun st =>
    let (id, symbols) := st.symbols.pushScope parent name
    (.ok id, { st with symbols })

def modifyScope (id : ScopeId) (f : Scope → Scope) : Step Unit :=
  ExceptT.mk fun st => (.ok (), { st with symbols := st.symbols.modifyScope id f })

/-- The prototype of the struct type that `typeName` names in `scope`, for a field. -/
def prototypeOf (scope : ScopeId) (typeName field : String) : Step ScopeId :=
  ExceptT.mk fun st =>
    match st.symbols.lookup? scope typeName with
    | some (.struct _ proto _) => (.ok proto, st)
    | _ => (.error (.fault (.unknownStructType typeName field)), st)

/-- Builds the instance of a prototype under a name and a parent. -/
abbrev Builder := (proto : ScopeId) → (name : String) → (parent : ScopeId) → Step ScopeId

/-- Makes a new variable for a field of the scope `id`. The type of a field is looked up from
`typeScope`; `nested` builds the instance under a field that is a struct. -/
def copyField (nested : Builder) (typeScope id : ScopeId) (field : String) (ty : Ty) :
    Step Unit := do
  let vreg ← draw
  let fields ← match ty with
    | .struct typeName => do
      let proto ← prototypeOf typeScope typeName field
      some <$> nested proto field id
    | _ => pure none
  modifyScope id (·.bind field (.var ⟨ty, none, vreg, fields⟩))

/-- Builds the instance of a prototype. `names` are the names of the prototypes on the way down to
this one, and at most `depth` more may follow on the way. -/
def build : (depth : Nat) → (names : List String) → Builder
  | depth, names, proto, name, parent => do
    match (← get).symbols.scope? proto with
    | none => throw (.fault (.notAStruct name))
    | some prototype =>
      if prototype.name ∈ names then throw (.fault (.recursiveStruct prototype.name))
      else
        match depth with
        | 0 => throw .tooDeep
        | depth + 1 =>
          let id ← pushScope parent name
          let typeScope := prototype.parent.getD globalScope
          prototype.fields.forM fun (field, ty) =>
            copyField (build depth (prototype.name :: names)) typeScope id field ty
          modifyScope id (·.takeOrder prototype)
          return id

end Instance

namespace SymbolTable

/-- No way down is longer: its prototypes bear different names, each of them a scope's, the new
instance's or a field's. -/
def nestingBound (t : SymbolTable) : Nat :=
  t.scopeCount + 1 + (t.scopes.flatMap (·.entries.names)).length

/-- Builds the instance of a prototype with at most `depth` prototypes on any way down. If that
fails, the new scopes go and the registers drawn stay drawn. -/
def instantiateWithin (t : SymbolTable) (depth : Nat) (proto : ScopeId) (name : String)
    (parent : ScopeId) (vregs : VRegSupply) :
    Except Instance.Halt ScopeId × SymbolTable × VRegSupply :=
  match (Instance.build depth [] proto name parent).run ⟨t, vregs⟩ with
  | (.ok id, st) => (.ok id, st.symbols, st.vregs)
  | (.error halt, st) => (.error halt, st.symbols.truncate t.scopeCount, st.vregs)

/-- Builds the instance of the struct type that `proto` lays out, as a scope with this name and this
parent. -/
def instantiate (t : SymbolTable) (proto : ScopeId) (name : String) (parent : ScopeId)
    (vregs : VRegSupply) : Except StructFault ScopeId × SymbolTable × VRegSupply :=
  let (result, after) := t.instantiateWithin t.nestingBound proto name parent vregs
  (result.mapError fun
    | .fault f => f
    | .tooDeep => .recursiveStruct name, after)

end SymbolTable
end A64Lowering
