import Mathlib
import A64Lowering.Proofs.Program.Linkage

/-! # Fragments are lowered independently

All fragments of a program draw from one pool, and every fragment leaves it as it was.

* `NameMap.entries_eq_of_mem_iff`: a listing by name is determined by its members.
* `SymbolTable.SameVariables`: two tables with the same global variables, registers apart.
* `dataSection_congr`, `lowerProgram_congr`: nothing else of a table shows in the text.
* `lowerProgram_separate`: a program is lowered as its fragments are, each with a pool of its own. -/
namespace A64Lowering
set_option autoImplicit false

open A64 Ir

/-! ## Global variables -/

theorem NameMap.entries_eq_of_mem_iff {α : Type} {first second : List (String × α)}
    (hfirst : first.Pairwise fun a b => a.1 < b.1) (hsecond : second.Pairwise fun a b => a.1 < b.1)
    (h : ∀ entry, entry ∈ first ↔ entry ∈ second) : first = second := by
  apply entries_eq_of_lookup_eq hfirst hsecond
  intro name
  apply Option.ext
  intro a
  rw [← mem_iff_lookup hfirst, ← mem_iff_lookup hsecond, h]

namespace SymbolTable

/-- The global scope binds `name` to a variable of this type that starts with this literal. -/
def DeclaresGlobal (t : SymbolTable) (name : String) (ty : Ty) (value : Option String) : Prop :=
  ∃ v, t.bound? globalScope name = some (.var v) ∧ v.ty = ty ∧ v.value = value

/-- The global scopes bind the same names to variables, with the same types and literals. -/
def SameVariables (t u : SymbolTable) : Prop :=
  ∀ name ty value, t.DeclaresGlobal name ty value ↔ u.DeclaresGlobal name ty value

/-- What the text shows of the global variables. -/
def globalData (t : SymbolTable) : List (String × Ty × Option String) :=
  t.globalVariables.map fun (name, v) => (name, v.ty, v.value)

variable {t u : SymbolTable}

theorem sorted_globalVariables (t : SymbolTable) :
    t.globalVariables.Pairwise fun a b => a.1 < b.1 := by
  unfold globalVariables
  split
  · exact NameMap.sorted_filterMap (Scope.entries _).sorted Entry.var?
  · exact .nil

theorem sorted_globalData (t : SymbolTable) : t.globalData.Pairwise fun a b => a.1 < b.1 :=
  List.pairwise_map.mpr t.sorted_globalVariables

theorem mem_globalData {name : String} {ty : Ty} {value : Option String} :
    (name, ty, value) ∈ t.globalData ↔ t.DeclaresGlobal name ty value := by
  simp only [globalData, DeclaresGlobal, List.mem_map, ← mem_globalVariables, Prod.exists,
    Prod.mk.injEq]
  constructor
  · rintro ⟨_, v, hmem, rfl, hty, hvalue⟩
    exact ⟨v, hmem, hty, hvalue⟩
  · rintro ⟨v, hmem, hty, hvalue⟩
    exact ⟨name, v, hmem, rfl, hty, hvalue⟩

theorem sameVariables_iff : t.SameVariables u ↔ t.globalData = u.globalData := by
  constructor
  · intro h
    apply NameMap.entries_eq_of_mem_iff t.sorted_globalData u.sorted_globalData
    rintro ⟨name, ty, value⟩
    rw [mem_globalData, mem_globalData, h]
  · intro h name ty value
    rw [← mem_globalData, ← mem_globalData, h]

theorem globalNames_eq (t : SymbolTable) :
    t.globalVariables.map (·.1) = t.globalData.map (·.1) := by
  simp [globalData]

end SymbolTable

/-! ## What the text shows of a table -/

theorem dataSection_congr {t u : SymbolTable} (h : t.globalData = u.globalData) :
    dataSection t.globalVariables = dataSection u.globalVariables := by
  -- the lines of a variable name neither its register nor its fields
  have hlines : ∀ w : SymbolTable,
      (w.globalVariables.flatMap fun (name, v) => dataLines name v)
        = w.globalData.flatMap fun (name, ty, value) => dataLines name ⟨ty, value, ⟨0⟩, none⟩ := by
    intro w
    rw [SymbolTable.globalData, List.flatMap_map]
    rfl
  have hempty : ∀ w : SymbolTable, w.globalVariables.isEmpty = w.globalData.isEmpty := by
    simp [SymbolTable.globalData]
  rw [dataSection, dataSection, hlines, hlines, hempty, hempty, h]

section Programs
variable {settings : Settings} {symbols others : SymbolTable} {program : Program}

theorem lowerProgram_congr (h : symbols.SameVariables others) :
    lowerProgram settings others program = lowerProgram settings symbols program := by
  have hdata := SymbolTable.sameVariables_iff.mp h
  rw [lowerProgram, lowerProgram, fileHeading, fileHeading, dataSection_congr hdata,
    symbols.globalNames_eq, others.globalNames_eq, hdata]

/-- A program is lowered exactly if each of its fragments is lowered with a pool of its own, to the
heading and the lines of the fragments; otherwise it has the fault of the first fragment that is
not. Of the symbol table only the global variables matter. -/
theorem lowerProgram_separate (settings : Settings) (symbols : SymbolTable) (program : Program) :
    ((∃ text, lowerProgram settings symbols program = .ok text) ↔
      ∀ frag ∈ program.fragments, ∃ code,
        fragmentLines settings (symbols.globalVariables.map (·.1)) .temporaries frag = .ok code)
    ∧ (∀ codes, List.Forall₂ (fun frag code =>
        fragmentLines settings (symbols.globalVariables.map (·.1)) .temporaries frag = .ok code)
        program.fragments codes →
      lowerProgram settings symbols program
        = .ok (fileHeading settings symbols ++ codes.flatten))
    ∧ (∀ fault, lowerProgram settings symbols program = .error fault ↔
      ∃ before frag after, program.fragments = before ++ frag :: after
        ∧ fragmentLines settings (symbols.globalVariables.map (·.1)) .temporaries frag
          = .error fault
        ∧ ∀ first ∈ before, ∃ code,
          fragmentLines settings (symbols.globalVariables.map (·.1)) .temporaries first = .ok code)
    ∧ ∀ others, symbols.SameVariables others →
      lowerProgram settings others program = lowerProgram settings symbols program := by
  refine ⟨?_, ?_, ?_, fun others => lowerProgram_congr⟩
  · simp only [← faultOf?_eq_none, faultOf?_lowerProgram, List.findSome?_eq_none_iff]
  · intro codes hcodes
    rw [lowerProgram, lowerFragments_eq, mapM_eq_ok.mpr hcodes]
    rfl
  · intro fault
    simp only [← faultOf?_eq_none, ← faultOf?_eq_some, faultOf?_lowerProgram,
      List.findSome?_eq_some_iff]

def readers : Program :=
  ⟨[⟨"f", [], [.loadGlobal ⟨0⟩ "g", .ret (some ⟨0⟩)]⟩, ⟨"h", [⟨0⟩], [.ret none]⟩]⟩

def readersTable : SymbolTable :=
  .insert .initial globalScope "g" (.var ⟨.int, some "5", ⟨0⟩, none⟩)

/-- The same variable under another register, and two functions with scopes of their own. -/
def readersFullTable : SymbolTable :=
  ((((SymbolTable.initial.pushScope globalScope "f").2.pushScope globalScope "h").2.insert
    globalScope "f" (.function .int 1)).insert globalScope "h" (.function .int 2)).insert
      globalScope "g" (.var ⟨.int, some "5", ⟨9⟩, none⟩)

theorem lowerProgram_separate_readers :
    readersTable.SameVariables readersFullTable ∧
      (∃ text, lowerProgram .default readersTable readers = .ok text) ∧
      lowerProgram .default readersFullTable readers
        = lowerProgram .default readersTable readers := by
  have hsame : readersTable.SameVariables readersFullTable :=
    SymbolTable.sameVariables_iff.mpr (by decide)
  exact ⟨hsame, ⟨_, rfl⟩,
    (lowerProgram_separate .default readersTable readers).2.2.2 readersFullTable hsame⟩

end Programs
end A64Lowering
