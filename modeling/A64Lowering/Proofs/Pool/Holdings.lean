import Mathlib
import A64Lowering.Proofs.Lowering.Faults

/-! # Who holds the registers of a pool

* `acquire_eq_ok`, `acquire_eq_error`: the least free register is handed out, as long as there is one.
* `Account`: a pool, with a record of who holds which register and what was taken out of circulation.
* `Account.Balanced`: the pool agrees with the record, also in its counts.
* `Account.Call`, `Account.after`: a call, and the account after it. `Reached`: calls one after
  another, from a new pool, in which everybody gives back only what they hold.
  `balanced_of_reached`: none of them brings the pool out of balance.
* `holdings_exact`: what calls do, told by the record alone. -/
namespace A64Lowering.A64.Pool
set_option autoImplicit false

variable {p pool : Pool} {r q : PoolReg}

/-! ## The least free register -/

theorem find?_finRange {n : ℕ} {f : Fin n → Bool} {r : Fin n} :
    (List.finRange n).find? f = some r ↔ IsLeast {q | f q = true} r := by
  rw [List.find?_eq_some_iff_getElem]
  constructor
  · rintro ⟨hr, i, hi, rfl, hbefore⟩
    refine ⟨hr, fun q hq => ?_⟩
    by_contra hlt
    have hqi : q.val < i := by simpa [Fin.lt_def] using hlt
    have hfalse := hbefore q.val hqi
    simp_all
  · rintro ⟨hr, hleast⟩
    refine ⟨hr, r.val, by simp, by simp, fun j hj => ?_⟩
    have hnot : ¬ f ⟨j, hj.trans r.isLt⟩ = true := fun hfree => by
      have hle := hleast hfree
      rw [Fin.le_def] at hle
      exact absurd hj (Nat.not_lt.mpr hle)
    simpa using hnot

theorem acquire_eq_ok : p.acquire = .ok (r, pool) ↔
    IsLeast {q | p.isFree q = true} r ∧ pool = { p with held := p.held.set r true r.isLt } := by
  rw [← find?_finRange, acquire]
  cases (List.finRange 32).find? p.isFree with
  | none => simp
  | some lowest =>
    simp only [Except.ok.injEq, Prod.mk.injEq, Option.some.injEq]
    constructor
    · rintro ⟨rfl, rfl⟩
      exact ⟨rfl, rfl⟩
    · rintro ⟨rfl, rfl⟩
      exact ⟨rfl, rfl⟩

theorem acquire_eq_error {fault : PoolFault} : p.acquire = .error fault ↔
    fault = .exhausted ∧ ∀ q, p.isFree q = false := by
  rw [acquire]
  cases hfind : (List.finRange 32).find? p.isFree with
  | none =>
    have hnone : ∀ q, p.isFree q = false := fun q => by
      simpa using List.find?_eq_none.mp hfind q (List.mem_finRange q)
    simp only [Except.error.injEq]
    exact ⟨fun h => ⟨h.symm, hnone⟩, fun h => h.1.symm⟩
  | some lowest =>
    have hfree := List.find?_some hfind
    simp only [reduceCtorEq, false_iff, not_and, not_forall]
    exact fun _ => ⟨lowest, by simp [hfree]⟩

/-! ## Accounts -/

/-- A pool, and what happened to its registers. -/
structure Account (Holder : Type) where
  pool : Pool
  /-- Who holds which register. -/
  holds : List (Holder × PoolReg)
  /-- What was reserved, whether somebody held it or not. -/
  reserved : Finset PoolReg

namespace Account

section Balance
variable {Holder : Type}

/-- The registers that somebody holds. -/
def held (a : Account Holder) : List PoolReg := a.holds.map (·.2)

/-- The accounts of new pools. -/
inductive Opens : Account Holder → Prop where
  | full : Opens ⟨.full, [], ∅⟩
  | temporaries : Opens ⟨.temporaries, [], Finset.univ.filter fun r => r.val ≤ 8 ∨ 16 ≤ r.val⟩

/-- The pool agrees with the record, in which no register is held twice. -/
structure Balanced (a : Account Holder) : Prop where
  held : ∀ r, a.pool.held.get r = true ↔ r ∈ a.held
  reserved : ∀ r, a.pool.reserved.get r = true ↔ r ∈ a.reserved
  nodup : a.held.Nodup

variable {a : Account Holder} {who : Holder}

theorem balanced_of_opens (h : a.Opens) : a.Balanced := by
  cases h with
  | full => exact ⟨by simp [Account.held, full], by simp [full], List.nodup_nil⟩
  | temporaries =>
    exact ⟨by simp [Account.held, temporaries, full], by simp [temporaries], List.nodup_nil⟩

theorem Balanced.isFree_iff (h : a.Balanced) (r : PoolReg) :
    a.pool.isFree r = true ↔ r ∉ a.held ∧ r ∉ a.reserved := by
  rw [isFree, ← h.held, ← h.reserved]
  simp [Vector.get_eq_getElem]

theorem Balanced.inUse_eq (h : a.Balanced) : a.pool.inUse = a.holds.length := by
  have hfilter : ((List.finRange 32).filter fun r => a.pool.held[r]).toFinset
      = a.held.toFinset := by
    ext r
    simp [← h.held, Vector.get_eq_getElem]
  rw [inUse, List.countP_eq_length_filter,
    ← List.toFinset_card_of_nodup ((List.nodup_finRange 32).filter _), hfilter,
    List.toFinset_card_of_nodup h.nodup, Account.held, List.length_map]

theorem Balanced.available_add (h : a.Balanced) :
    a.pool.available + (a.held.toFinset ∪ a.reserved).card = 32 := by
  have hfree : (Finset.univ.filter fun r => a.pool.isFree r = true)
      = (a.held.toFinset ∪ a.reserved)ᶜ := by
    ext r
    simp [h.isFree_iff]
  rw [available_eq_card, hfree, Finset.card_compl_add_card]
  rfl

theorem get_set_eq_true {v : Vector Bool 32} {r q : PoolReg} :
    (v.set r true r.isLt).get q = true ↔ q = r ∨ v.get q = true := by
  by_cases hq : q = r
  · subst hq
    simp [Vector.get_eq_getElem]
  · have hval : r.val ≠ q.val := fun heq => hq (Fin.ext heq.symm)
    simp [Vector.get_eq_getElem, hq, hval]

theorem Balanced.acquire (h : a.Balanced) (hr : a.pool.acquire = .ok (r, pool)) :
    Balanced ⟨pool, (who, r) :: a.holds, a.reserved⟩ := by
  obtain ⟨hleast, rfl⟩ := acquire_eq_ok.mp hr
  have hnot := ((h.isFree_iff r).mp hleast.1).1
  refine ⟨fun q => ?_, h.reserved, List.nodup_cons.mpr ⟨hnot, h.nodup⟩⟩
  rw [get_set_eq_true, h.held]
  exact List.mem_cons.symm

theorem Balanced.reserve (h : a.Balanced) (r : PoolReg) :
    Balanced ⟨a.pool.reserve r, a.holds, insert r a.reserved⟩ := by
  refine ⟨h.held, fun q => ?_, h.nodup⟩
  rw [Finset.mem_insert, ← h.reserved]
  exact get_set_eq_true

end Balance

/-! ## Calls -/

section Calls
variable {Holder : Type} [DecidableEq Holder]

inductive Call (Holder : Type) where
  | acquire (who : Holder)
  | release (who : Holder) (r : PoolReg)
  | reserve (id : UInt8)

/-- The account after a call. One that fails leaves it as it was. -/
def after (a : Account Holder) : Call Holder → Account Holder
  | .acquire who =>
    match a.pool.acquire with
    | .ok (r, pool) => ⟨pool, (who, r) :: a.holds, a.reserved⟩
    | .error _ => a
  | .release who r => ⟨a.pool.release r, a.holds.erase (who, r), a.reserved⟩
  | .reserve id =>
    match PoolReg.ofId id with
    | .ok r => ⟨a.pool.reserve r, a.holds, insert r a.reserved⟩
    | .error _ => a

/-- Nobody gives back what they do not hold. -/
def Permits (a : Account Holder) : Call Holder → Prop
  | .release who r => (who, r) ∈ a.holds
  | .acquire _ | .reserve _ => True

/-- Calls one after another lead from `a` to `b`. -/
def Leads (a b : Account Holder) : Prop :=
  Relation.ReflTransGen (fun a b => ∃ c : Call Holder, a.Permits c ∧ a.after c = b) a b

def Reached (a : Account Holder) : Prop := ∃ start : Account Holder, start.Opens ∧ start.Leads a

variable {a b : Account Holder} {who : Holder}

theorem Balanced.mem_held_erase (h : a.Balanced) (hr : (who, r) ∈ a.holds) (q : PoolReg) :
    q ∈ (a.holds.erase (who, r)).map (·.2) ↔ q ≠ r ∧ q ∈ a.held := by
  have hnodup : a.holds.Nodup := h.nodup.of_map _
  -- the entry that goes is the only one with this register
  have hinj := List.inj_on_of_nodup_map h.nodup
  simp only [Account.held, List.mem_map, hnodup.mem_erase_iff]
  constructor
  · rintro ⟨entry, ⟨hne, hmem⟩, rfl⟩
    exact ⟨fun heq => hne (hinj hmem hr heq), entry, hmem, rfl⟩
  · rintro ⟨hne, entry, hmem, rfl⟩
    exact ⟨entry, ⟨fun heq => hne (congrArg Prod.snd heq), hmem⟩, rfl⟩

theorem Balanced.release (h : a.Balanced) (hr : (who, r) ∈ a.holds) :
    Balanced ⟨a.pool.release r, a.holds.erase (who, r), a.reserved⟩ := by
  refine ⟨fun q => ?_, h.reserved, h.nodup.sublist (List.erase_sublist.map _)⟩
  refine Iff.trans ?_ (h.mem_held_erase hr q).symm
  rw [← h.held]
  by_cases hq : q = r
  · subst hq
    simp [Pool.release, Vector.get_eq_getElem]
  · have hval : r.val ≠ q.val := fun heq => hq (Fin.ext heq.symm)
    simp [Pool.release, Vector.get_eq_getElem, hq, hval]

theorem Balanced.after (h : a.Balanced) {c : Call Holder} (hc : a.Permits c) :
    (a.after c).Balanced := by
  cases c with
  | acquire who =>
    rw [Account.after]
    split
    · next hr => exact h.acquire hr
    · exact h
  | release who r => exact h.release hc
  | reserve id =>
    rw [Account.after]
    split
    · exact h.reserve _
    · exact h

theorem balanced_of_reached (h : a.Reached) : a.Balanced := by
  obtain ⟨start, hstart, hleads⟩ := h
  induction hleads with
  | refl => exact balanced_of_opens hstart
  | tail _ hcall ih =>
    obtain ⟨c, hc, rfl⟩ := hcall
    exact ih.after hc

theorem reserved_subset_after (a : Account Holder) (c : Call Holder) :
    a.reserved ⊆ (a.after c).reserved := by
  cases c with
  | acquire who =>
    rw [after]
    split <;> exact subset_rfl
  | release who r => exact subset_rfl
  | reserve id =>
    rw [after]
    split
    · exact Finset.subset_insert ..
    · exact subset_rfl

/-- What is reserved once stays so. -/
theorem reserved_subset_of_leads (h : a.Leads b) : a.reserved ⊆ b.reserved := by
  induction h with
  | refl => exact subset_rfl
  | tail _ hcall ih =>
    obtain ⟨c, -, rfl⟩ := hcall
    exact ih.trans (reserved_subset_after _ c)

/-- What the calls to come do is told by who holds what and by what was reserved. -/
structure Exact (a : Account Holder) : Prop where
  /-- No register has two holders, or one holder twice. -/
  exclusive : a.held.Nodup
  handed : ∀ r pool, a.pool.acquire = .ok (r, pool) ↔
    IsLeast {q | q ∉ a.held ∧ q ∉ a.reserved} r ∧
      pool = { a.pool with held := a.pool.held.set r true r.isLt }
  exhausted : ∀ fault, a.pool.acquire = .error fault ↔
    fault = .exhausted ∧ ∀ q, q ∈ a.held ∨ q ∈ a.reserved
  unchanged : ∀ fault who, a.pool.acquire = .error fault → a.after (.acquire who) = a
  /-- What was reserved by now is never handed out again. -/
  retired : ∀ b, a.Leads b → ∀ r pool, b.pool.acquire = .ok (r, pool) → r ∉ a.reserved
  inUse : a.pool.inUse = a.holds.length
  available : a.pool.available = 32 - (a.held.toFinset ∪ a.reserved).card

/-- Whatever was taken, given back and reserved since a pool was new, its registers are where the
record says, and it hands out the least one that nobody holds and that was never reserved. -/
theorem holdings_exact (h : a.Reached) : a.Exact := by
  have hbalanced := balanced_of_reached h
  have hcount := hbalanced.available_add
  refine ⟨hbalanced.nodup, fun r pool => ?_, fun fault => ?_, fun fault who hfault => ?_, ?_,
    hbalanced.inUse_eq, by omega⟩
  · simp only [acquire_eq_ok, hbalanced.isFree_iff]
  · rw [acquire_eq_error]
    simp only [← Bool.not_eq_true, hbalanced.isFree_iff, not_and_or, not_not]
  · rw [after, hfault]
  · intro b hleads r pool hacquire hreserved
    obtain ⟨start, hstart, hreached⟩ := h
    have hlater : b.Balanced := balanced_of_reached ⟨start, hstart, hreached.trans hleads⟩
    have hfree : b.pool.isFree r = true := (acquire_eq_ok.mp hacquire).1.1
    exact ((hlater.isFree_iff r).mp hfree).2 (reserved_subset_of_leads hleads hreserved)

end Calls

/-- A register is reserved while the first holder has it, and then given back. -/
def shared : Account (Fin 3) :=
  ((((Account.mk .full [] ∅).after (.acquire 0)).after (.reserve 0)).after (.acquire 1)).after
    (.release 0 0)

theorem holdings_exact_shared : shared.Reached ∧ shared.holds = [(1, 1)] ∧ 0 ∈ shared.reserved ∧
    shared.Exact ∧ (shared.after (.acquire 2)).holds = [(2, 2), (1, 1)] := by
  have hgiven : ((((Account.mk .full [] ∅).after (.acquire 0)).after (.reserve 0)).after
      (.acquire 1)).Permits (.release (0 : Fin 3) 0) := by
    show _ ∈ _
    decide
  have hreached : shared.Reached :=
    ⟨_, .full, .tail (.tail (.tail (.single ⟨.acquire 0, trivial, rfl⟩) ⟨.reserve 0, trivial, rfl⟩)
      ⟨.acquire 1, trivial, rfl⟩) ⟨.release 0 0, hgiven, rfl⟩⟩
  exact ⟨hreached, by decide, by decide, holdings_exact hreached, by decide⟩

end Account
end A64Lowering.A64.Pool
