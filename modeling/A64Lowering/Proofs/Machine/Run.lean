import A64Lowering.Proofs.Machine.Exec

/-! # Running lines of assembly

* `Line.after`: the lines after a label.
* `next`: the lines that come after an instruction, which may be those after a label.
* `step`, `Reaches`: one line of a run, and any number of them. A return ends the run.
* `reaches_execs`, `reaches_comments`: instructions that do not steer run one after another, and
  comments do nothing. -/
namespace A64Lowering.A64
set_option autoImplicit false

/-- The lines after the first label with this name. -/
def Line.after (name : String) : List Line → Option (List Line)
  | [] => none
  | .label l :: lines => if l = name then some lines else after name lines
  | _ :: lines => after name lines

/-- The lines to run after an instruction of `code` that stands before `rest`. -/
def next (code rest : List Line) (s : State) : Inst → Option (List Line)
  | .b name => Line.after name code
  | .cbz rt name => if s.get rt = 0 then Line.after name code else some rest
  | .cbnz rt name => if s.get rt = 0 then some rest else Line.after name code
  | .ret => none
  | _ => some rest

/-- One line of a run through `code`. -/
def step (env : Env) (code : List Line) : List Line × State → Option (List Line × State)
  | ([], _) => none
  | (.inst i :: rest, s) => (next code rest s i).map (·, exec env s i)
  | (.label _ :: rest, s) | (.directive _ :: rest, s) | (.comment _ :: rest, s) => some (rest, s)

/-- Some number of lines of a run through `code`. -/
def Reaches (env : Env) (code : List Line) : List Line × State → List Line × State → Prop :=
  Relation.ReflTransGen fun c d => step env code c = some d

/-- Whether the line after the instruction always comes next. -/
def Inst.falls : Inst → Bool
  | .b _ | .cbz _ _ | .cbnz _ _ | .ret => false
  | _ => true

theorem next_of_falls {code rest : List Line} {s : State} {i : Inst} (h : i.falls = true) :
    next code rest s i = some rest := by
  cases i with
  | b _ | cbz _ _ | cbnz _ _ | ret => exact absurd h Bool.false_ne_true
  | _ => rfl

section Reaches
variable {env : Env} {code : List Line}

theorem Reaches.refl (c : List Line × State) : Reaches env code c c :=
  Relation.ReflTransGen.refl

theorem Reaches.trans {b c d : List Line × State} (h : Reaches env code b c)
    (h' : Reaches env code c d) : Reaches env code b d :=
  Relation.ReflTransGen.trans h h'

theorem Reaches.of_step {c d : List Line × State} (h : step env code c = some d) :
    Reaches env code c d :=
  .single h

theorem Reaches.head {b c d : List Line × State} (h : step env code b = some c)
    (h' : Reaches env code c d) : Reaches env code b d :=
  (Reaches.of_step h).trans h'

/-- Instructions that do not steer run one after another. -/
theorem reaches_execs {is : List Inst} (h : ∀ i ∈ is, i.falls = true) (rest : List Line)
    (s : State) : Reaches env code (is.map .inst ++ rest, s) (rest, execs env is s) := by
  induction is generalizing s with
  | nil => exact .refl _
  | cons i is ih =>
    refine .head (c := (is.map .inst ++ rest, exec env s i)) ?_ ?_
    · simp only [List.map_cons, List.cons_append, step, next_of_falls (h i List.mem_cons_self),
        Option.map_some]
    · exact ih (fun j hj => h j (List.mem_cons_of_mem i hj)) _

theorem reaches_comments {lines : List Line} (h : ∀ line ∈ lines, ∃ text, line = .comment text)
    (rest : List Line) (s : State) : Reaches env code (lines ++ rest, s) (rest, s) := by
  induction lines with
  | nil => exact .refl _
  | cons line lines ih =>
    obtain ⟨⟨text, rfl⟩, hothers⟩ := List.forall_mem_cons.mp h
    exact .head rfl (ih hothers)

theorem after_append_of_not_mem {name : String} {front : List Line} (back : List Line)
    (h : .label name ∉ front) : Line.after name (front ++ back) = Line.after name back := by
  induction front with
  | nil => rfl
  | cons line front ih =>
    have hfront : Line.label name ∉ front := fun hmem => h (List.mem_cons_of_mem line hmem)
    cases line with
    | label l =>
      have hne : l ≠ name := fun e => h (e ▸ List.mem_cons_self)
      rw [List.cons_append, Line.after, if_neg hne, ih hfront]
    | inst _ | directive _ | comment _ => exact ih hfront

end Reaches
end A64Lowering.A64
