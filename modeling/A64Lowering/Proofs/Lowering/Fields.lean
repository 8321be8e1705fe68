import Mathlib
import A64Lowering.Proofs.Lowering.Calls

/-! # Cells of fields

* `Instruction.field?`: the pointer and the index of the field that an instruction accesses.
* `fieldNumber`, `FieldInRange`: the number that an index is taken for, and whether its offset fits.
* `Site.AccessesField`: code accesses one cell off the stack, at a distance from a pointer.
* `lower_field_cells`: the cells of two fields of one pointer. -/
namespace A64Lowering
set_option autoImplicit false

open A64 Ir

/-! ## Indices -/

/-- The pointer to the object whose field an instruction accesses, and the index of the field. -/
def Ir.Instruction.field? : Instruction → Option (VReg × UInt64)
  | .loadField _ base _ index | .storeField _ base _ index => some (base, index)
  | _ => none

/-- The number that an index is taken for: its low 32 bits, with a sign. -/
def fieldNumber (index : UInt64) : ℤ := index.toUInt32.toInt32.toInt

/-- The offset of the field is a signed number of 32 bits. -/
def FieldInRange (index : UInt64) : Prop :=
  -2 ^ 31 ≤ 8 * fieldNumber index ∧ 8 * fieldNumber index < 2 ^ 31

instance : DecidablePred FieldInRange := fun _ => inferInstanceAs (Decidable (_ ∧ _))

section Indices
variable {i j : UInt64}

theorem fieldNumber_eq (i : UInt64) : fieldNumber i = (i.toNat : ℤ).bmod (2 ^ 32) := by
  rw [fieldNumber, ← Int32.toInt_toBitVec, BitVec.toInt_eq_toNat_bmod]
  have hlow : i.toUInt32.toInt32.toBitVec.toNat = i.toNat % 2 ^ 32 := by simp
  rw [hlow, Int.natCast_mod]
  exact Int.emod_bmod _ _

theorem toInt_fieldOffset_of_inRange (h : FieldInRange i) :
    (fieldOffset i).toInt = 8 * fieldNumber i := by
  obtain ⟨hlo, hhi⟩ := h
  have h8 : (8 : Int32).toInt = 8 := rfl
  rw [fieldOffset, Int32.toInt_mul, h8, mul_comm, ← fieldNumber]
  exact Int.bmod_eq_of_le (by omega) (by omega)

theorem fieldNumber_inj : fieldNumber i = fieldNumber j ↔ i.toNat % 2 ^ 32 = j.toNat % 2 ^ 32 := by
  rw [fieldNumber_eq, fieldNumber_eq, Int.bmod_def, Int.bmod_def]
  split <;> split <;> omega

theorem fieldNumber_eq_self (h : FieldInRange i) :
    8 * fieldNumber i = 8 * i.toNat ↔ i.toNat < 2 ^ 28 := by
  obtain ⟨hlo, hhi⟩ := h
  constructor
  · intro heq
    omega
  · intro hlt
    rw [fieldNumber_eq, Int.bmod_eq_of_le (by omega) (by omega)]

/-- Two fields of one object have the same cell, or no byte in common. -/
theorem field_cells (hi : FieldInRange i) (hj : FieldInRange j) (v : Word) :
    (addr v (8 * fieldNumber i) = addr v (8 * fieldNumber j) ↔
        i.toNat % 2 ^ 32 = j.toNat % 2 ^ 32) ∧
      (i.toNat % 2 ^ 32 ≠ j.toNat % 2 ^ 32 →
        Apart (addr v (8 * fieldNumber i)) (addr v (8 * fieldNumber j))) := by
  obtain ⟨hilo, hihi⟩ := hi
  obtain ⟨hjlo, hjhi⟩ := hj
  refine ⟨⟨fun heq => ?_, fun heq => ?_⟩, fun hne => ?_⟩
  · -- addresses wrap at 64 bits, and both distances fit 32
    have hdistance := eq_of_addr_eq heq (by omega) (by omega)
    exact fieldNumber_inj.mp (by omega)
  · rw [fieldNumber_inj.mpr heq]
  · have hnumber : fieldNumber i ≠ fieldNumber j := fun heq => hne (fieldNumber_inj.mp heq)
    exact apart_addr (by omega) (by omega) (by omega)

end Indices

/-! ## Code -/

/-- The value of a register, from its home. -/
def Site.held (s : Site) (t : A64.State) (r : VReg) : Word :=
  match s.layout.home? r with
  | some (.slot offset) => t.mem.read (offsetAddr (t.reg .fp) offset)
  | some (.param k) => t.reg (argReg k)
  | none => 0

/-- Code brings the value of `base` into a register and accesses the cell at the distance `d` from
it. All other accesses of memory are those of slots. -/
inductive Site.AccessesField (s : Site) (base : VReg) (d : ℤ) : List Inst → Prop where
  | intro {before bring after : List Inst} {access : Inst} {pointer : Reg}
      (hbring : ∀ env t, (execs env bring t).get pointer = s.held t base)
      (haccess : access.cells = [(pointer, d)])
      (hothers : ∀ i ∈ before ++ bring ++ after, ∀ c ∈ i.cells, c.1 = .fp ∨ c.1 = slotScratch) :
      AccessesField s base d (before ++ bring ++ access :: after)

section Code
variable {s : Site} {w after : Workspace} {inst : Instruction} {dst src : Reg} {r base : VReg}
  {code : List Inst} {lines : List Line}

theorem frame_of_cells {i : Inst} (hi : i.cells = []) :
    ∀ c ∈ i.cells, c.1 = .fp ∨ c.1 = slotScratch := by
  rw [hi]
  exact List.forall_mem_nil _

theorem frame_slotAccess (access : Reg → Int32 → Inst)
    (hcells : ∀ rn off, (access rn off).cells = [(rn, off.toInt)]) (off : Int32) :
    ∀ i ∈ slotAccess access off, ∀ c ∈ i.cells, c.1 = .fp ∨ c.1 = slotScratch := by
  rw [slotAccess]
  split
  · simp [hcells]
  · refine List.forall_mem_append.mpr ⟨fun i hi => ?_, by simp [hcells]⟩
    exact frame_of_cells (cells_slotAddress off i hi)

theorem frame_load (h : s.load dst r = .ok code) :
    ∀ i ∈ code, ∀ c ∈ i.cells, c.1 = .fp ∨ c.1 = slotScratch := by
  obtain ⟨home, -, rfl⟩ := Site.map_home_ok h
  cases home with
  | slot off => exact frame_slotAccess (.ldr dst) (fun _ _ => rfl) off
  | param k => exact fun i hi => frame_of_cells (cells_moveReg i hi)

theorem frame_store (h : s.store src r = .ok code) :
    ∀ i ∈ code, ∀ c ∈ i.cells, c.1 = .fp ∨ c.1 = slotScratch := by
  obtain ⟨home, -, rfl⟩ := Site.map_home_ok h
  cases home with
  | slot off => exact frame_slotAccess (.str src) (fun _ _ => rfl) off
  | param k => exact fun i hi => frame_of_cells (cells_moveReg i hi)

/-- A load brings the value from its home into any register of the pool. -/
theorem get_execs_load (fits : s.layout.Fits) {q : PoolReg} (h : s.load q.reg r = .ok code)
    (env : Env) (t : A64.State) : (execs env code t).get q.reg = s.held t r := by
  have hget : ∀ u : A64.State, u.get q.reg = u.reg q.reg := fun _ => rfl
  obtain ⟨home, hhome, rfl⟩ := Site.map_home_ok h
  rw [hget, Site.held, hhome]
  cases home with
  | slot off =>
    obtain ⟨hlo, hhi⟩ := Layout.slot_bounds fits hhome
    have hlocals := fits.locals_le
    exact (loadSlot_spec (by omega) (by omega) (Set.mem_univ q.reg) (Set.mem_univ _)).2
  | param k =>
    dsimp only
    rw [execs_moveReg (Reg.among_subset le_rfl (by omega) (Reg.argReg_mem k)),
      A64.State.reg_set_self]

theorem yields_of_lower (hinst : ∀ name, inst ≠ .label name)
    (h : (s.lower inst).run w = (.ok lines, after)) :
    ∃ code mid, Scratch.Yields (s.operate inst) w code mid ∧
      lines = s.annotation inst ++ code.map .inst := by
  rw [Site.lower, ExceptT.run_mk, Site.lines_eq hinst, Scratch.run_bind] at h
  rcases hrun : (s.operate inst).run w with ⟨fault | code, mid⟩
  · rw [hrun] at h
    cases h
  · rw [hrun] at h
    cases h
    exact ⟨code, mid, hrun, rfl⟩

theorem accessesField_of_operate (fits : s.layout.Fits) {index : UInt64}
    (hfield : inst.field? = some (base, index))
    (h : Scratch.Yields (s.operate inst) w code after) :
    s.AccessesField base (fieldOffset index).toInt code := by
  cases inst with
  | loadField target base field index =>
    cases hfield
    simp only [Site.operate, Scratch.yields_bind, Scratch.yields_ofExcept, Scratch.yields_pure,
      Prod.exists] at h
    obtain ⟨a, bring, mid, hbring, result, _, ⟨hresult, rfl⟩, rfl, rfl⟩ := h
    obtain ⟨ha, hload⟩ := Site.yields_fetch hbring
    obtain ⟨q, -, rfl⟩ := Scratch.yields_acquire ha
    rw [List.append_assoc, List.singleton_append, ← List.nil_append bring]
    exact .intro (get_execs_load fits hload) rfl
      (List.forall_mem_append.mpr ⟨frame_load hload, frame_store hresult⟩)
  | storeField source base field index =>
    cases hfield
    simp only [Site.operate, Scratch.yields_bind, Scratch.yields_pure, Prod.exists] at h
    obtain ⟨a, value, mid, hvalue, b, bring, last, hbring, rfl, rfl⟩ := h
    obtain ⟨-, hload⟩ := Site.yields_fetch hvalue
    obtain ⟨hb, hload'⟩ := Site.yields_fetch hbring
    obtain ⟨q, -, rfl⟩ := Scratch.yields_acquire hb
    exact .intro (get_execs_load fits hload') rfl (by
      rw [List.append_nil]
      exact List.forall_mem_append.mpr ⟨frame_load hload, frame_load hload'⟩)
  | _ => cases hfield

theorem accessesField_of_lower {frag : Fragment} {index : UInt64}
    (hlayout : Layout.ofFragment frag = .ok s.layout) (hfield : inst.field? = some (base, index))
    (hrange : FieldInRange index) (h : (s.lower inst).run w = (.ok lines, after)) :
    s.AccessesField base (8 * fieldNumber index) (Line.instructions lines) := by
  have hinst : ∀ name, inst ≠ .label name := by
    rintro name rfl
    cases hfield
  obtain ⟨code, mid, hoperate, rfl⟩ := yields_of_lower hinst h
  rw [instructions_append, instructions_annotation, instructions_map_inst, List.nil_append,
    ← toInt_fieldOffset_of_inRange hrange]
  exact accessesField_of_operate (Layout.fits_of_ofFragment hlayout) hfield hoperate

/-- An instruction that accesses a field touches one cell off the stack, at eight times the number
that its index is taken for, which is the index itself below `2 ^ 28`. Two fields of one pointer
have no byte in common, unless their indices agree in the low 32 bits. -/
theorem lower_field_cells {frag : Fragment} {inst' : Instruction} {w' after' : Workspace}
    {lines' : List Line} {i j : UInt64} (hlayout : Layout.ofFragment frag = .ok s.layout)
    (hfield : inst.field? = some (base, i)) (hfield' : inst'.field? = some (base, j))
    (hi : FieldInRange i) (hj : FieldInRange j)
    (h : (s.lower inst).run w = (.ok lines, after))
    (h' : (s.lower inst').run w' = (.ok lines', after')) :
    s.AccessesField base (8 * fieldNumber i) (Line.instructions lines) ∧
      s.AccessesField base (8 * fieldNumber j) (Line.instructions lines') ∧
      (8 * fieldNumber i = 8 * i.toNat ↔ i.toNat < 2 ^ 28) ∧
      ∀ v, (addr v (8 * fieldNumber i) = addr v (8 * fieldNumber j) ↔
          i.toNat % 2 ^ 32 = j.toNat % 2 ^ 32) ∧
        (i.toNat % 2 ^ 32 ≠ j.toNat % 2 ^ 32 →
          Apart (addr v (8 * fieldNumber i)) (addr v (8 * fieldNumber j))) :=
  ⟨accessesField_of_lower hlayout hfield hi h, accessesField_of_lower hlayout hfield' hj h',
    fieldNumber_eq_self hi, field_cells hi hj⟩

end Code

/-- A function with a pointer and a value to store behind it. -/
def fieldWriter : Fragment := ⟨"f", [⟨0⟩, ⟨1⟩], []⟩

theorem field_cells_far_apart :
    ∃ layout lines after lines' after', Layout.ofFragment fieldWriter = .ok layout ∧
      FieldInRange 1 ∧ FieldInRange 268435455 ∧
      ((layout.site .default [] fieldWriter).lower (.storeField ⟨1⟩ ⟨0⟩ "a" 1)).run
        ⟨.temporaries, []⟩ = (.ok lines, after) ∧
      ((layout.site .default [] fieldWriter).lower (.loadField ⟨1⟩ ⟨0⟩ "b" 268435455)).run
        ⟨.temporaries, []⟩ = (.ok lines', after') ∧
      (layout.site .default [] fieldWriter).AccessesField ⟨0⟩ 8 (Line.instructions lines) ∧
      (layout.site .default [] fieldWriter).AccessesField ⟨0⟩ 2147483640
        (Line.instructions lines') ∧
      ∀ v, Apart (addr v 8) (addr v 2147483640) := by
  have hlower : ∃ layout lines after lines' after',
      Layout.ofFragment fieldWriter = .ok layout ∧
      ((layout.site .default [] fieldWriter).lower (.storeField ⟨1⟩ ⟨0⟩ "a" 1)).run
        ⟨.temporaries, []⟩ = (.ok lines, after) ∧
      ((layout.site .default [] fieldWriter).lower (.loadField ⟨1⟩ ⟨0⟩ "b" 268435455)).run
        ⟨.temporaries, []⟩ = (.ok lines', after') := ⟨_, _, _, _, _, rfl, rfl, rfl⟩
  obtain ⟨layout, lines, after, lines', after', hlayout, hstore, hload⟩ := hlower
  have hlayout' : Layout.ofFragment fieldWriter
      = .ok (layout.site .default [] fieldWriter).layout := hlayout
  have hfirst : FieldInRange 1 := by decide
  have hlast : FieldInRange 268435455 := by decide
  obtain ⟨hcell, hcell', -, hcells⟩ :=
    lower_field_cells hlayout' rfl rfl hfirst hlast hstore hload
  exact ⟨layout, lines, after, lines', after', hlayout, hfirst, hlast, hstore, hload, hcell, hcell',
    fun v => (hcells v).2 (by decide)⟩

theorem field_cell_of_narrowed_index :
    FieldInRange 4294967296 ∧ FieldInRange 0 ∧ ∃ layout lines after,
      Layout.ofFragment fieldWriter = .ok layout ∧
      ((layout.site .default [] fieldWriter).lower (.storeField ⟨1⟩ ⟨0⟩ "a" 4294967296)).run
        ⟨.temporaries, []⟩ = (.ok lines, after) ∧
      ((layout.site .default [] fieldWriter).lower (.storeField ⟨1⟩ ⟨0⟩ "a" 0)).run
        ⟨.temporaries, []⟩ = (.ok lines, after) ∧
      .inst (.str (.x 9) (.x 10) 0) ∈ lines ∧
      (0 : Int32).toInt ≠ 8 * (4294967296 : UInt64).toNat := by
  refine ⟨by decide, by decide, _, _, _, rfl, rfl, rfl, by decide, by decide⟩

end A64Lowering
