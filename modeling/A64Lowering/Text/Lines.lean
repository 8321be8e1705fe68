/-! # Lines

* `Text.joinLines`: a text in which every line ends with a line feed, the last one too. -/
namespace A64Lowering.Text
set_option autoImplicit false

/-- The lines one after another, each ended by a line feed. -/
def joinLines (lines : List String) : String :=
  lines.foldr (fun line rest => line ++ "\n" ++ rest) ""

/-- The texts one after another with a comma between neighbours. -/
def commaSeparated : List String → String
  | [] => ""
  | [text] => text
  | text :: rest => text ++ "," ++ commaSeparated rest

theorem joinLines_cons (line : String) (lines : List String) :
    joinLines (line :: lines) = line ++ "\n" ++ joinLines lines := rfl

end A64Lowering.Text
