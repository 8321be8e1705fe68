/-! # Types of symbols

* `Ty`: the type tags a symbol can carry.
* `Ty.tag`, `Ty.text`: the short tag, and the full text with struct names and pointers spelled out. -/
namespace A64Lowering
set_option autoImplicit false

/-- The type of a symbol. -/
inductive Ty where
  | int
  | bool
  | void
  | nil
  /-- A struct type, by its declared name. -/
  | struct (name : String)
  | pointer (target : Ty)
  | function
  | unknown
  deriving DecidableEq, Repr

namespace Ty

/-- The tag, without a struct's name or a pointer's target. -/
def tag : Ty → String
  | int => "int"
  | bool => "bool"
  | void => "void"
  | nil => "nil"
  | struct _ => "struct"
  | pointer _ => "pointer"
  | function => "func"
  | unknown => "unknown"

/-- The full text: a struct with its name, a pointer as a star before its target. -/
def text : Ty → String
  | struct name => "struct " ++ name
  | pointer target => "*" ++ target.text
  | other => other.tag

/-- Whether the values fit in one eight-byte slot. -/
def isScalar : Ty → Bool
  | int | bool | nil | pointer _ => true
  | _ => false

def isStruct : Ty → Bool
  | struct _ => true
  | _ => false

def structName? : Ty → Option String
  | struct name => some name
  | _ => none

end Ty
end A64Lowering
