import Mathlib
import A64Lowering.Proofs.Symbol.Failure

/-! # The registers of a table

* `SymbolTable.storage?`: the register of a name that is bound to a variable or a struct type, and
  what the changes of a table make of it.
* `SymbolTable.Tidy`: no two names share a register, all registers were drawn before, and some of
  those drawn are not in use.
* `Instance.Builds.tidy`: the construction of an instance keeps a table tidy, however it ends.
  `SymbolTable.Tidy.instantiate`: so does the instance, whether it is kept or not. -/
namespace A64Lowering
set_option autoImplicit false

/-! ## Registers in use -/

namespace SymbolTable
variable {t u : SymbolTable} {id changed : ScopeId} {name field : String} {r : VReg}

/-- The register of what `name` is bound to in this scope itself. -/
def storage? (t : SymbolTable) (id : ScopeId) (name : String) : Option VReg :=
  (t.bound? id name).bind Entry.vreg?

theorem storage?_eq_some :
    t.storage? id name = some r ↔
      ∃ s entry, t.scope? id = some s ∧ s.entries.get? name = some entry ∧
        entry.vreg? = some r := by
  simp only [storage?, bound?, Option.bind_eq_some_iff]
  constructor
  · rintro ⟨entry, ⟨s, hs, hentry⟩, hr⟩
    exact ⟨s, entry, hs, hentry, hr⟩
  · rintro ⟨s, entry, hs, hentry, hr⟩
    exact ⟨entry, ⟨s, hs, hentry⟩, hr⟩

theorem storage?_initial (id : ScopeId) (name : String) : initial.storage? id name = none := by
  rw [Option.eq_none_iff_forall_ne_some]
  intro r hr
  obtain ⟨s, entry, hs, hentry, -⟩ := storage?_eq_some.mp hr
  obtain rfl : id = 0 := Nat.lt_one_iff.mp (scope?_lt hs)
  cases hs
  cases hentry

theorem storage?_of_pushScope {parent : ScopeId} {label : String}
    (h : (t.pushScope parent label).2.storage? id name = some r) : t.storage? id name = some r := by
  obtain ⟨s, entry, hs, hentry, hr⟩ := storage?_eq_some.mp h
  rcases scope?_of_pushScope hs with ⟨-, rfl⟩ | hold
  · cases hentry
  · exact storage?_eq_some.mpr ⟨s, entry, hold, hentry, hr⟩

theorem storage?_of_truncate {count : Nat}
    (h : (t.truncate count).storage? id name = some r) : t.storage? id name = some r := by
  obtain ⟨s, entry, hs, hentry, hr⟩ := storage?_eq_some.mp h
  rw [scope?, truncate, List.getElem?_take] at hs
  split at hs
  · exact storage?_eq_some.mpr ⟨s, entry, hs, hentry, hr⟩
  · cases hs

/-- After a name was bound, its register is that of its new binding, and others stay. -/
theorem storage?_of_bind {f : Scope → Scope} {entry : Entry}
    (hf : ∀ s, (f s).entries = (s.bind field entry).entries)
    (h : (t.modifyScope changed f).storage? id name = some r) :
    (id = changed ∧ name = field ∧ entry.vreg? = some r) ∨ t.storage? id name = some r := by
  obtain ⟨s, other, hs, hother, hr⟩ := storage?_eq_some.mp h
  rcases scope?_of_modifyScope hs with ⟨rfl, old, hold, rfl⟩ | hold
  · rw [hf] at hother
    rcases Scope.get?_of_bind hother with ⟨rfl, rfl⟩ | hget
    · exact .inl ⟨rfl, rfl, hr⟩
    · exact .inr (storage?_eq_some.mpr ⟨old, other, hold, hget, hr⟩)
  · exact .inr (storage?_eq_some.mpr ⟨s, other, hold, hother, hr⟩)

theorem storage?_of_modifyScope {f : Scope → Scope} (hf : ∀ s, (f s).entries = s.entries)
    (h : (t.modifyScope changed f).storage? id name = some r) : t.storage? id name = some r := by
  obtain ⟨s, entry, hs, hentry, hr⟩ := storage?_eq_some.mp h
  rcases scope?_of_modifyScope hs with ⟨-, old, hold, rfl⟩ | hold
  · rw [hf] at hentry
    exact storage?_eq_some.mpr ⟨old, entry, hold, hentry, hr⟩
  · exact storage?_eq_some.mpr ⟨s, entry, hold, hentry, hr⟩

theorem storage?_of_updateVariable {change : Variable → Variable}
    (same : ∀ v, (change v).vreg = v.vreg)
    (h : (t.updateVariable changed field change).storage? id name = some r) :
    t.storage? id name = some r := by
  unfold updateVariable at h
  split at h
  · next v hv =>
    rcases storage?_of_bind (fun _ => rfl) h with ⟨rfl, rfl, hr⟩ | hold
    · rw [storage?, hv]
      exact (congrArg some (same v).symm).trans hr
    · exact hold
  · exact h

/-! ## Tidy tables -/

/-- No two names share a register, and all registers are among those that the supply has handed
out. So are the reserved ones, which no name has. -/
structure Tidy (t : SymbolTable) (vregs : VRegSupply) (reserved : List VReg) : Prop where
  apart : ∀ id id' name name' r, t.storage? id name = some r → t.storage? id' name' = some r →
    id = id' ∧ name = name'
  drawn : ∀ id name r, t.storage? id name = some r → r.id < vregs.drawn
  reserved_drawn : ∀ r ∈ reserved, r.id < vregs.drawn
  unused : ∀ r ∈ reserved, ∀ id name, t.storage? id name ≠ some r
  nodup : reserved.Nodup

end SymbolTable

namespace VRegSupply

theorem toNat_drawn_draw (vregs : VRegSupply) (room : vregs.drawn.toNat + 1 < UInt32.size) :
    vregs.draw.2.drawn.toNat = vregs.drawn.toNat + 1 := by
  rw [drawn_draw, UInt32.toNat_add]
  exact Nat.mod_eq_of_lt room

theorem room_draw {vregs : VRegSupply} {draws : Nat}
    (room : vregs.drawn.toNat + (1 + draws) < UInt32.size) :
    vregs.draw.2.drawn.toNat + draws < UInt32.size := by
  rw [toNat_drawn_draw vregs (by omega), Nat.add_assoc]
  exact room

end VRegSupply

namespace SymbolTable.Tidy
variable {t u : SymbolTable} {vregs : VRegSupply} {reserved : List VReg}

theorem initial : initial.Tidy .fresh [] := by
  refine ⟨?_, ?_, nofun, nofun, List.nodup_nil⟩
  · intro id _ name _ r h _
    rw [storage?_initial] at h
    cases h
  · intro id name r h
    rw [storage?_initial] at h
    cases h

theorem of_storage (h : t.Tidy vregs reserved)
    (hu : ∀ id name r, u.storage? id name = some r → t.storage? id name = some r) :
    u.Tidy vregs reserved where
  apart id id' name name' r hr hr' := h.apart id id' name name' r (hu _ _ _ hr) (hu _ _ _ hr')
  drawn id name r hr := h.drawn id name r (hu _ _ _ hr)
  reserved_drawn := h.reserved_drawn
  unused r hr id name hstored := h.unused r hr id name (hu _ _ _ hstored)
  nodup := h.nodup

theorem perm (h : t.Tidy vregs reserved) {other : List VReg} (hperm : reserved.Perm other) :
    t.Tidy vregs other where
  apart := h.apart
  drawn := h.drawn
  reserved_drawn r hr := h.reserved_drawn r (hperm.mem_iff.mpr hr)
  unused r hr := h.unused r (hperm.mem_iff.mpr hr)
  nodup := hperm.nodup_iff.mp h.nodup

/-- A register that is not needed is drawn for good. -/
theorem drop {r : VReg} (h : t.Tidy vregs (r :: reserved)) : t.Tidy vregs reserved where
  apart := h.apart
  drawn := h.drawn
  reserved_drawn r' hr' := h.reserved_drawn r' (List.mem_cons_of_mem r hr')
  unused r' hr' := h.unused r' (List.mem_cons_of_mem r hr')
  nodup := h.nodup.of_cons

/-- The next register is none of those drawn before. -/
theorem draw (h : t.Tidy vregs reserved) (room : vregs.drawn.toNat + 1 < UInt32.size) :
    t.Tidy vregs.draw.2 (vregs.draw.1 :: reserved) := by
  have hlt : ∀ r : VReg, r.id < vregs.drawn → r.id < vregs.draw.2.drawn := by
    intro r hr
    rw [UInt32.lt_iff_toNat_lt] at hr ⊢
    rw [vregs.toNat_drawn_draw room]
    exact hr.trans (Nat.lt_succ_self _)
  have hnew : ∀ r : VReg, r.id < vregs.drawn → r ≠ vregs.draw.1 := by
    rintro r hr rfl
    exact UInt32.lt_irrefl _ hr
  constructor
  · exact h.apart
  · exact fun id name r hr => hlt r (h.drawn id name r hr)
  · intro r hr
    rcases List.mem_cons.mp hr with rfl | hold
    · rw [UInt32.lt_iff_toNat_lt, vregs.toNat_drawn_draw room]
      exact Nat.lt_succ_self _
    · exact hlt r (h.reserved_drawn r hold)
  · intro r hr id name hstored
    rcases List.mem_cons.mp hr with rfl | hold
    · exact hnew _ (h.drawn id name _ hstored) rfl
    · exact h.unused r hold id name hstored
  · refine List.nodup_cons.mpr ⟨?_, h.nodup⟩
    exact fun hmem => hnew _ (h.reserved_drawn _ hmem) rfl

/-- A name may be bound to something with a register that was reserved for it. -/
theorem bind {r : VReg} (h : t.Tidy vregs (r :: reserved)) {changed : ScopeId} {field : String}
    {entry : Entry} (hr : entry.vreg? = some r) {f : Scope → Scope}
    (hf : ∀ s, (f s).entries = (s.bind field entry).entries) :
    (t.modifyScope changed f).Tidy vregs reserved := by
  -- the register is the reserved one in the place where it is bound, and an old one elsewhere
  have hcases : ∀ id name r', (t.modifyScope changed f).storage? id name = some r' →
      (id = changed ∧ name = field ∧ r' = r) ∨ t.storage? id name = some r' := by
    intro id name r' hstored
    refine (storage?_of_bind hf hstored).imp_left ?_
    rintro ⟨hid, hname, hr'⟩
    exact ⟨hid, hname, Option.some.inj (hr'.symm.trans hr)⟩
  have hfree : ∀ id name, t.storage? id name ≠ some r := h.unused r List.mem_cons_self
  constructor
  · intro id id' name name' r' hstored hstored'
    rcases hcases id name r' hstored with ⟨rfl, rfl, rfl⟩ | hold
    · rcases hcases id' name' _ hstored' with ⟨rfl, rfl, -⟩ | hold'
      · exact ⟨rfl, rfl⟩
      · exact absurd hold' (hfree id' name')
    · rcases hcases id' name' r' hstored' with ⟨rfl, rfl, rfl⟩ | hold'
      · exact absurd hold (hfree id name)
      · exact h.apart id id' name name' r' hold hold'
  · intro id name r' hstored
    rcases hcases id name r' hstored with ⟨-, -, rfl⟩ | hold
    · exact h.reserved_drawn _ List.mem_cons_self
    · exact h.drawn id name r' hold
  · exact h.drop.reserved_drawn
  · intro r' hr' id name hstored
    rcases hcases id name r' hstored with ⟨-, -, rfl⟩ | hold
    · exact (List.nodup_cons.mp h.nodup).1 hr'
    · exact h.drop.unused r' hr' id name hold
  · exact h.drop.nodup

end SymbolTable.Tidy

/-! ## The construction of an instance -/

namespace Instance

theorem Builds.toNat_drawn {nesting draws : Nat} {names : List String} {proto parent : ScopeId}
    {name : String} {result : Except StructFault ScopeId} {st after : State}
    (h : Builds nesting draws names proto name parent st result after)
    (room : st.vregs.drawn.toNat + draws < UInt32.size) :
    after.vregs.drawn.toNat = st.vregs.drawn.toNat + draws := by
  rw [h.drawn, UInt32.toNat_add, UInt32.toNat_ofNat_of_lt' (by omega)]
  exact Nat.mod_eq_of_lt room

mutual

/-- The new scopes have registers that no other name has. -/
theorem Builds.tidy {nesting draws names proto name parent result} {st after : State}
    {reserved : List VReg} (h : Builds nesting draws names proto name parent st result after)
    (room : st.vregs.drawn.toNat + draws < UInt32.size)
    (tidy : st.symbols.Tidy st.vregs reserved) : after.symbols.Tidy after.vregs reserved := by
  have hpush : (st.push parent name).symbols.Tidy st.vregs reserved :=
    tidy.of_storage fun _ _ _ => SymbolTable.storage?_of_pushScope
  match h with
  | .missing _ | .recursive _ _ => exact tidy
  | .built _ _ copied =>
    exact (copied.tidy room hpush).of_storage fun _ _ _ =>
      SymbolTable.storage?_of_modifyScope fun _ => rfl
  | .stopped _ _ copied => exact copied.tidy room hpush
termination_by structural h

theorem Fills.tidy {nesting draws names typeScope id fields result} {st after : State}
    {reserved : List VReg} (h : Fills nesting draws names typeScope id fields st result after)
    (room : st.vregs.drawn.toNat + draws < UInt32.size)
    (tidy : st.symbols.Tidy st.vregs reserved) : after.symbols.Tidy after.vregs reserved := by
  match h with
  | .done => exact tidy
  | .plain _ others =>
    exact others.tidy (VRegSupply.room_draw room)
      ((tidy.draw (by omega)).bind rfl fun _ => rfl)
  | .unknown _ => exact (tidy.draw room).drop
  | .inner _ built copied =>
    have hroom := VRegSupply.room_draw (by rwa [Nat.add_assoc 1] at room)
    have hbuilt := (Nat.add_le_add_left (Nat.le_add_right _ _) _).trans_lt hroom
    -- the register of the field is reserved while its instance is built
    have hmid := built.tidy hbuilt (tidy.draw (by omega))
    refine copied.tidy ?_ (hmid.bind rfl fun _ => rfl)
    rw [drawn_bindVar, built.toNat_drawn hbuilt, Nat.add_assoc]
    exact hroom
  | .stopped _ stopped =>
    exact (stopped.tidy (VRegSupply.room_draw room) (tidy.draw (by omega))).drop
termination_by structural h

end

end Instance

namespace SymbolTable
open Instance (Builds State)

theorem Tidy.instantiate {t : SymbolTable} {vregs : VRegSupply} {reserved : List VReg}
    {proto parent : ScopeId} {name : String} {draws : Nat} {result : Except StructFault ScopeId}
    {last : State} (h : t.Tidy vregs reserved)
    (built : Builds t.nestingBound draws [] proto name parent ⟨t, vregs⟩ result last)
    (room : vregs.drawn.toNat + draws < UInt32.size) :
    (t.instantiate proto name parent vregs).2.1.Tidy (t.instantiate proto name parent vregs).2.2
      reserved := by
  have hlast : last.symbols.Tidy last.vregs reserved := built.tidy room h
  rw [instantiate_eq_of_builds built le_rfl]
  cases result with
  | ok id => exact hlast
  | error fault => exact hlast.of_storage fun _ _ _ => storage?_of_truncate

end SymbolTable
end A64Lowering
