import A64Lowering.Json.Spelling

/-! # Printing JSON

* `Json.pretty`: a value over several lines, each part on a line of its own, two spaces deeper than
  its container. An empty container takes no line. -/
namespace A64Lowering.Json
set_option autoImplicit false

/-- A line feed and the blanks before a part at this depth. -/
def newline (depth : Nat) : List Char := '\n' :: List.replicate (2 * depth) ' '

mutual

/-- A value that stands at this depth. -/
def write (depth : Nat) : Json → List Char
  | .scalar s => s.write
  | .array [] => ['[', ']']
  | .array (item :: items) =>
    '[' :: newline (depth + 1) ++ write (depth + 1) item ++ writeItems (depth + 1) items
      ++ newline depth ++ [']']
  | .object [] => ['\x7b', '\x7d']
  | .object ((name, value) :: members) =>
    '\x7b' :: newline (depth + 1) ++ (Scalar.string name).write ++ [':', ' ']
      ++ write (depth + 1) value ++ writeMembers (depth + 1) members ++ newline depth ++ ['\x7d']

/-- The items after the first one. -/
def writeItems (depth : Nat) : List Json → List Char
  | [] => []
  | item :: items => ',' :: newline depth ++ write depth item ++ writeItems depth items

/-- The members after the first one. -/
def writeMembers (depth : Nat) : List (Option String × Json) → List Char
  | [] => []
  | (name, value) :: members =>
    ',' :: newline depth ++ (Scalar.string name).write ++ [':', ' '] ++ write depth value
      ++ writeMembers depth members

end

/-- The text of a value. -/
def pretty (v : Json) : String := String.ofList (write 0 v)

end A64Lowering.Json
