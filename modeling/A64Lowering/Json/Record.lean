import A64Lowering.Json.Value
import A64Lowering.Word

/-! # Records in JSON

A record is an object with its fields by name, or an array with its fields by position. A tagged
value is an object of one member, or the bare tag where it has no content.

* `slots?`, `fields?`: the fields of a record, in a given order, some possibly absent.
* `tagged?`: the tag and the content of a tagged value.
* `uint32?`, `text?`, `listOf?` and others: the values that fields hold. -/
namespace A64Lowering.Json
set_option autoImplicit false

/-- The members of an object whose names are all texts. -/
def namedMembers? (members : List (Option String × Json)) : Option (List (String × Json)) :=
  members.mapM fun (name, value) => name.map (·, value)

/-- The fields named in `names`, in that order; those at the end of an array may be missing.
Other members are passed over, and a field that comes twice is refused. -/
def slots? (names : List String) : Json → Option (List (Option Json))
  | .array items =>
    if items.length ≤ names.length then
      some (items.map some ++ List.replicate (names.length - items.length) none)
    else none
  | .object members => do
    let members ← namedMembers? members
    if names.any fun name => 1 < members.countP (·.1 == name) then none
    else return names.map fun name => members.lookup name
  | _ => none

/-- The fields named in `names`, in that order; an array has all of them. -/
def fields? (names : List String) (v : Json) : Option (List (Option Json)) :=
  match v with
  | .array items => if items.length = names.length then slots? names v else none
  | _ => slots? names v

/-- The tag of a tagged value, and its content. -/
def tagged? : Json → Option (String × Option Json)
  | .string tag => some (tag, none)
  | .object [(some tag, content)] => some (tag, some content)
  | _ => none

/-- The tag of a tagged value without content; `null` counts as no content. -/
def bareTag? (v : Json) : Option String :=
  match tagged? v with
  | some (tag, none) => some tag
  | some (tag, some .null) => some tag
  | _ => none

/-- An optional field: absent and `null` are the same. -/
def optional? {α : Type} (read : Json → Option α) : Option Json → Option (Option α)
  | none => some none
  | some .null => some none
  | some v => (read v).map some

/-- A field with a value of its own for its absence. -/
def withDefault? {α : Type} (default : α) (read : Json → Option α) : Option Json → Option α
  | none => some default
  | some v => read v

/-- The items of an array, each read in the same way. -/
def listOf? {α : Type} (read : Json → Option α) : Json → Option (List α)
  | .array items => items.mapM read
  | _ => none

def text? : Json → Option String
  | .string s => some s
  | _ => none

def bool? : Json → Option Bool
  | .bool b => some b
  | _ => none

def integer? : Json → Option Int
  | .integer n => some n
  | _ => none

/-- An integer from 0 to 2^32 - 1. -/
def uint32? (v : Json) : Option UInt32 := v.integer?.bind Word.uint32?

/-- An integer from 0 to 2^64 - 1. -/
def uint64? (v : Json) : Option UInt64 := v.integer?.bind Word.uint64?

/-- An integer from -2^63 to 2^63 - 1. -/
def int64? (v : Json) : Option Int64 := v.integer?.bind Word.int64?

/-- A list as an array. -/
def ofList {α : Type} (write : α → Json) (xs : List α) : Json := .array (xs.map write)

/-- An optional value: `null` where there is none. -/
def ofOption {α : Type} (write : α → Json) : Option α → Json
  | none => .null
  | some a => write a

end A64Lowering.Json
