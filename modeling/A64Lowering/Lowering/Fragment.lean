import A64Lowering.Lowering.Instruction

/-! # Lowering one fragment

* `lowerBody`: the lines of a body, up to its first fault.
* `lowerFragment`: a function with its directives, its label, prologue and epilogue. -/
namespace A64Lowering
set_option autoImplicit false

open A64 Ir

/-- The lines of the instructions one after another. -/
def Site.lowerBody (s : Site) : List Instruction → Scratch (List Line)
  | [] => return []
  | inst :: body => do
    let first ← s.lower inst
    let rest ← s.lowerBody body
    return first ++ rest

/-- The lines before the body. -/
def heading (name : String) (frame : Frame) : List Line :=
  [.directive (".type " ++ name ++ ",%function"), .directive (".global " ++ name),
    .directive ".p2align 2", .label name] ++ frame.prologue.map .inst

/-- The lines after the body. -/
def ending (site : Site) (frame : Frame) : List Line :=
  [.label site.returnLabel] ++ frame.epilogue.map .inst
    ++ [.directive (".size " ++ site.function ++ ", (. - " ++ site.function ++ ")")]

/-- The lines of a fragment, and the pool after its lowering. -/
def lowerFragment (settings : Settings) (globals : List String) (frag : Fragment) (pool : Pool) :
    Except LoweringFault (List Line) × Pool :=
  match Layout.ofFragment frag with
  | .error fault => (.error (.convention fault), pool)
  | .ok layout =>
    let site : Site := ⟨frag.label, layout, settings, globals⟩
    let (body, w) := (site.lowerBody frag.body).run ⟨pool, []⟩
    (body.map fun lines => heading frag.label layout.frame ++ lines ++ ending site layout.frame,
      w.pool)

end A64Lowering
