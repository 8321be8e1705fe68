import Mathlib

/-! # Words and memory

* `Word`, `Mem`: 64-bit words, and a byte under every address.
* `Mem.read`, `Mem.write`: the eight bytes from an address on, as one little-endian word.
* `Apart`: cells of eight bytes without a common byte. A write leaves the cells apart from its own.
* `addr`: the address at a signed distance from another one.
* `Area`: the bytes at a range of distances from a base address. -/
namespace A64Lowering.A64
set_option autoImplicit false

abbrev Word := BitVec 64

abbrev Mem := Word → BitVec 8

/-- The cells of eight bytes from `a` and from `b` on have no byte in common. -/
def Apart (a b : Word) : Prop := ∀ c : Word, (c - a).toNat < 8 → 8 ≤ (c - b).toNat

theorem Apart.symm {a b : Word} (h : Apart a b) : Apart b a := by
  intro c hc
  by_contra hlt
  have := h c (by omega)
  omega

/-! ## Reading and writing -/

namespace Mem

/-- The eight bytes from `a` on, lowest first. -/
def read (m : Mem) (a : Word) : Word :=
  BitVec.ofFnLE fun i : Fin 64 => (m (a + BitVec.ofNat 64 (i / 8))).getLsbD (i % 8)

/-- The memory with `v` in the eight bytes from `a` on. -/
def write (m : Mem) (a v : Word) : Mem := fun b =>
  if (b - a).toNat < 8 then v.extractLsb' (8 * (b - a).toNat) 8 else m b

theorem read_congr {m m' : Mem} {a : Word}
    (h : ∀ b : Word, (b - a).toNat < 8 → m b = m' b) : m.read a = m'.read a := by
  unfold read
  congr 1
  funext i
  rw [h _ (by bv_omega)]

theorem write_of_le {m : Mem} {a b v : Word} (h : 8 ≤ (b - a).toNat) : m.write a v b = m b := by
  rw [write, if_neg (by omega)]

@[simp] theorem read_write_self (m : Mem) (a v : Word) : (m.write a v).read a = v := by
  ext i hi
  have hbyte : (a + BitVec.ofNat 64 (i / 8) - a).toNat = i / 8 := by bv_omega
  have hbit : 8 * (i / 8) + i % 8 = i := Nat.div_add_mod i 8
  simp only [read, write, BitVec.getElem_ofFnLE, hbyte, if_pos (show i / 8 < 8 by omega),
    BitVec.getLsbD_extractLsb', hbit, show i % 8 < 8 by omega, decide_true, Bool.true_and]
  exact BitVec.getLsbD_eq_getElem hi

theorem read_write_of_apart {m : Mem} {a b v : Word} (h : Apart b a) :
    (m.write a v).read b = m.read b :=
  read_congr fun c hc => write_of_le (h c hc)

end Mem

/-! ## Distances -/

/-- The address at distance `x` from `base`. -/
def addr (base : Word) (x : ℤ) : Word := base + BitVec.ofInt 64 x

theorem addr_addr (base : Word) (x y : ℤ) : addr (addr base x) y = addr base (x + y) := by
  rw [addr, addr, addr, BitVec.ofInt_add, BitVec.add_assoc]

@[simp] theorem addr_zero (base : Word) : addr base 0 = base := by
  simp [addr]

theorem addr_natCast (base : Word) (n : ℕ) : addr base n = base + BitVec.ofNat 64 n := by
  rw [addr, BitVec.ofInt_natCast]

theorem addr_sub_addr (base : Word) (x y : ℤ) :
    addr base x - addr base y = BitVec.ofInt 64 (x - y) := by
  have h : addr base x = addr (addr base y) (x - y) := by rw [addr_addr]; congr 1; omega
  rw [h, addr]
  bv_omega

theorem toNat_addr_sub (base : Word) (x y : ℤ) :
    (addr base x - addr base y).toNat = ((x - y) % 2 ^ 64).toNat := by
  rw [addr_sub_addr, BitVec.toNat_ofInt]
  rfl

theorem exists_addr (base b : Word) : ∃ x : ℤ, b = addr base x :=
  ⟨(b - base).toInt, by rw [addr, BitVec.ofInt_toInt]; bv_omega⟩

/-- Cells at distances that differ by a cell, and not by the whole address space, are apart. -/
theorem apart_addr {base : Word} {x y : ℤ} (h : x + 8 ≤ y ∨ y + 8 ≤ x)
    (hx : x - y ≤ 2 ^ 64 - 8) (hy : y - x ≤ 2 ^ 64 - 8) : Apart (addr base x) (addr base y) := by
  intro c hc
  obtain ⟨d, rfl⟩ := exists_addr base c
  rw [toNat_addr_sub] at hc ⊢
  omega

theorem eq_of_addr_eq {base : Word} {x y : ℤ} (h : addr base x = addr base y)
    (hx : x - y < 2 ^ 64) (hy : y - x < 2 ^ 64) : x = y := by
  have hzero := toNat_addr_sub base x y
  rw [h, BitVec.sub_self, BitVec.toNat_zero] at hzero
  omega

/-- The bytes at the distances from `lo` up to `hi` from `base`. -/
def Area (base : Word) (lo hi : ℤ) : Set Word := {b | ∃ x : ℤ, lo ≤ x ∧ x < hi ∧ b = addr base x}

theorem mem_area {base b : Word} {lo hi x : ℤ} (hb : (b - addr base x).toNat < 8) (hlo : lo ≤ x)
    (hhi : x + 8 ≤ hi) : b ∈ Area base lo hi := by
  refine ⟨x + (b - addr base x).toNat, by omega, by omega, ?_⟩
  rw [← addr_addr, addr_natCast, BitVec.ofNat_toNat]
  simp

/-- Areas one above the other have no byte in common, unless they span the whole address space. -/
theorem disjoint_area {base : Word} {lo hi lo' hi' : ℤ} (h : hi ≤ lo') (hspan : hi' - lo ≤ 2 ^ 64) :
    Disjoint (Area base lo hi) (Area base lo' hi') := by
  rw [Set.disjoint_left]
  rintro b ⟨x, hlo, hhi, rfl⟩ ⟨y, hlo', hhi', heq⟩
  have hxy := eq_of_addr_eq heq (by omega) (by omega)
  omega

end A64Lowering.A64
