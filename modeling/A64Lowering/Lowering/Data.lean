import A64Lowering.A64.Inst
import A64Lowering.Symbol.Table
import A64Lowering.Text.Decimal
import A64Lowering.Word

/-! # The data section

* `initialValue`: the word that a global variable starts with.
* `dataSection`: a label and a word for each global variable, in name order. -/
namespace A64Lowering
set_option autoImplicit false

open A64

/-- The word that a literal stands for: a truth value of type `bool`, `nil`, or an optionally signed
decimal numeral of 64 bits; any other literal is 0. -/
def literalValue (ty : Ty) (literal : String) : Int64 :=
  if ty = .bool ∧ literal = "true" then 1
  else ((Decimal.signed? literal.toList).bind Word.int64?).getD 0

def initialValue (v : Variable) : Int64 :=
  match v.value with
  | some literal => literalValue v.ty literal
  | none => 0

/-- The lines of one variable. -/
def dataLines (name : String) (v : Variable) : List Line :=
  [.label name, .directive (".quad " ++ Decimal.ofInt (initialValue v).toInt)]

/-- The lines of the global variables, if there are any. -/
def dataSection (globals : List (String × Variable)) : List Line :=
  if globals.isEmpty then []
  else [.directive ".data", .directive ".p2align 3"]
    ++ globals.flatMap fun (name, v) => dataLines name v

end A64Lowering
