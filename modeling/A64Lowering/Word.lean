/-! # Words

* `Word.uint32?`, `Word.uint64?`, `Word.int64?`: the machine word of an integer, if it is in range.
* `uint32?_toNat`, `uint64?_toNat`, `int64?_toInt`: every word is the word of its value. -/
namespace A64Lowering.Word
set_option autoImplicit false

/-- The unsigned 32-bit word of `n`. -/
def uint32? (n : Int) : Option UInt32 :=
  if 0 ≤ n ∧ n < 0x100000000 then some (.ofNat n.toNat) else none

/-- The unsigned 64-bit word of `n`. -/
def uint64? (n : Int) : Option UInt64 :=
  if 0 ≤ n ∧ n < 0x10000000000000000 then some (.ofNat n.toNat) else none

/-- The signed 64-bit word of `n`. -/
def int64? (n : Int) : Option Int64 :=
  if -0x8000000000000000 ≤ n ∧ n < 0x8000000000000000 then some (.ofInt n) else none

theorem uint32?_toNat (w : UInt32) : uint32? w.toNat = some w := by
  have bound := w.toNat_lt
  rw [uint32?, if_pos ⟨by omega, by omega⟩, Int.toNat_natCast, UInt32.ofNat_toNat]

theorem uint64?_toNat (w : UInt64) : uint64? w.toNat = some w := by
  have bound := w.toNat_lt
  rw [uint64?, if_pos ⟨by omega, by omega⟩, Int.toNat_natCast, UInt64.ofNat_toNat]

theorem int64?_toInt (w : Int64) : int64? w.toInt = some w := by
  have low := w.le_toInt
  have high := w.toInt_lt
  rw [int64?, if_pos ⟨by omega, by omega⟩, Int64.ofInt_toInt]

end A64Lowering.Word
