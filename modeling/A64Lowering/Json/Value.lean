import A64Lowering.Text.Decimal

/-! # JSON values

* `Json.Scalar`, `Json`: a value as a tree. An object keeps its members in the order of the text,
  repeated names included, so that a reader of records can refuse a repetition.
* `Json.record`, `Json.variant`: the objects that programs write for records and for tagged values.

A string is `none` when its spelling has an escaped surrogate without its partner: such a spelling
is well formed but names no text. -/
namespace A64Lowering
set_option autoImplicit false

/-- A JSON value without parts. -/
inductive Json.Scalar where
  | null
  | bool (b : Bool)
  /-- A number without fraction and exponent, other than `-0`. -/
  | integer (n : Int)
  /-- Any other number. -/
  | real
  /-- A string, or `none` if its spelling names no text. -/
  | string (s : Option String)
  deriving DecidableEq, Repr

/-- A JSON value. -/
inductive Json where
  | scalar (s : Json.Scalar)
  | array (items : List Json)
  | object (members : List (Option String × Json))

namespace Json

@[match_pattern] def null : Json := .scalar .null

@[match_pattern] def bool (b : Bool) : Json := .scalar (.bool b)

@[match_pattern] def integer (n : Int) : Json := .scalar (.integer n)

@[match_pattern] def string (s : String) : Json := .scalar (.string (some s))

/-- The object with these members. -/
def record (members : List (String × Json)) : Json :=
  .object (members.map fun (name, value) => (some name, value))

/-- The object of one member: a tag and its content. -/
def variant (tag : String) (content : Json) : Json := record [(tag, content)]

end Json
end A64Lowering
