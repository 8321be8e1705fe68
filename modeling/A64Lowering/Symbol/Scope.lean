import A64Lowering.NameMap
import A64Lowering.Ty
import A64Lowering.VReg

/-! # Scopes and what names are bound to

* `Variable`, `Entry`: a name is bound to a variable, a function or a struct type.
* `Scope`: bindings by name, the enclosing scope, and the ordered names, which are the parameters of
  a function or the fields of a struct in their order. -/
namespace A64Lowering
set_option autoImplicit false

/-- The position of a scope in its table. -/
abbrev ScopeId := Nat

structure Variable where
  ty : Ty
  /-- The literal that the variable starts with. -/
  value : Option String
  /-- The register that names its storage. -/
  vreg : VReg
  /-- The scope of the fields, if the variable holds a struct by value. -/
  fields : Option ScopeId
  deriving DecidableEq, Repr

/-- What a name is bound to. -/
inductive Entry where
  | var (v : Variable)
  /-- A function, with the scope of its parameters and local names. -/
  | function (returnType : Ty) (scope : ScopeId)
  /-- A struct type, with the scope that lays out its fields. -/
  | struct (name : String) (scope : ScopeId) (vreg : VReg)
  deriving DecidableEq, Repr

namespace Entry

/-- The type of the name. -/
def ty : Entry → Ty
  | var v => v.ty
  | function .. => .function
  | struct name .. => .struct name

/-- The register of the name; functions have none. -/
def vreg? : Entry → Option VReg
  | var v => some v.vreg
  | function .. => none
  | struct _ _ vreg => some vreg

/-- The scope under the name: fields, body or layout. -/
def scope? : Entry → Option ScopeId
  | var v => v.fields
  | function _ scope => some scope
  | struct _ scope _ => some scope

/-- The return type, if the name is a function's. -/
def returnType? : Entry → Option Ty
  | function returnType _ => some returnType
  | _ => none

/-- The variable, if the name is one. -/
def var? : Entry → Option Variable
  | var v => some v
  | _ => none

end Entry

structure Scope where
  /-- The enclosing scope. -/
  parent : Option ScopeId
  name : String
  entries : NameMap Entry
  /-- The ordered names, in the order of their declaration. -/
  orderedNames : List String
  /-- The types that the ordered names were declared with. -/
  orderedTypes : List Ty

namespace Scope

/-- A scope without names. -/
def ofName (parent : Option ScopeId) (name : String) : Scope := ⟨parent, name, .empty, [], []⟩

/-- The variable bound to `name` here. -/
def var? (s : Scope) (name : String) : Option Variable :=
  (s.entries.get? name).bind Entry.var?

/-- The variables bound here, in name order. -/
def vars (s : Scope) : List (String × Variable) :=
  s.entries.entries.filterMap fun (name, entry) => entry.var?.map (name, ·)

def bind (s : Scope) (name : String) (entry : Entry) : Scope :=
  { s with entries := s.entries.insert name entry }

/-- Binds `name` to a variable and makes it the last ordered name. -/
def declare (s : Scope) (name : String) (v : Variable) : Scope :=
  { s.bind name (.var v) with
    orderedNames := s.orderedNames ++ [name]
    orderedTypes := s.orderedTypes ++ [v.ty] }

/-- The scope with the ordered names of `p` and their types. -/
def takeOrder (s p : Scope) : Scope :=
  { s with orderedNames := p.orderedNames, orderedTypes := p.orderedTypes }

end Scope
end A64Lowering
