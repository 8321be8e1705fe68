import A64Lowering.Json.Reader
import A64Lowering.Json.Record
import A64Lowering.Ty

/-! # Types as JSON

A type without parts is its bare name; a struct type and a pointer type are objects of one member.
A text is read only up to a nesting of `Ty.maxNesting` objects. -/
namespace A64Lowering.Ty
set_option autoImplicit false

open Json (tagged? text?)

def toJson : Ty → Json
  | int => .string "Int"
  | bool => .string "Bool"
  | void => .string "Void"
  | nil => .string "Nil"
  | struct name => .variant "Struct" (.string name)
  | pointer target => .variant "Pointer" target.toJson
  | function => .string "Function"
  | unknown => .string "Unknown"

/-- The type without parts that has this name. -/
def ofName? : String → Option Ty
  | "Int" => some int
  | "Bool" => some bool
  | "Void" => some void
  | "Nil" => some nil
  | "Function" => some function
  | "Unknown" => some unknown
  | _ => none

/-- The number of objects that a type in a text may nest. -/
def maxNesting : Nat := 127

/-- The type of a JSON value that nests at most this many objects. -/
def ofJsonWithin? : (nesting : Nat) → Json → Option Ty
  | 0, v =>
    match tagged? v with
    | some (name, none) => ofName? name
    | _ => none
  | nesting + 1, v =>
    match tagged? v with
    | some ("Struct", some content) => (text? content).map struct
    | some ("Pointer", some content) => (ofJsonWithin? nesting content).map pointer
    | some (name, none) => ofName? name
    | some (name, some .null) => ofName? name
    | _ => none

def ofJson? (v : Json) : Option Ty := ofJsonWithin? maxNesting v

/-- The type of a JSON text. -/
def ofText? (text : String) : Option Ty := (Json.read? text).bind ofJson?

end A64Lowering.Ty
