import Mathlib
import A64Lowering.Proofs.Symbol.Nesting
import A64Lowering.Proofs.Symbol.Recursion

/-! # Instances end

* `wellFounded_build`: where an instance is built, no way down from its prototype goes on forever.
* `SymbolTable.instantiate_ends`: in a sound table the construction of an instance ends, with no more
  constructions inside one another than the table has scopes; where a struct contains itself, with a
  fault. -/
namespace A64Lowering
set_option autoImplicit false

open Relation (ReflTransGen TransGen)

namespace SymbolTable
variable {t : SymbolTable}

/-- All ways down from the prototype end. -/
def WellFounded (t : SymbolTable) (proto : ScopeId) : Prop := Acc (fun q p => t.Embeds p q) proto

theorem WellFounded.of_reach {p q : ScopeId} (h : t.WellFounded p) (hpq : ReflTransGen t.Embeds p q) :
    t.WellFounded q := by
  induction hpq with
  | refl => exact h
  | tail _ hqr ih => exact ih.inv hqr

theorem WellFounded.not_cycle {p : ScopeId} (h : t.WellFounded p) : ¬ TransGen t.Embeds p p := by
  induction h with
  | intro p _ ih =>
    intro hcycle
    obtain ⟨q, hpq, hqp⟩ := TransGen.head'_iff.mp hcycle
    exact ih q hpq (TransGen.tail' hqp hpq)

end SymbolTable

namespace Instance
variable {t : SymbolTable}

theorem wellFounded_build (sound : t.Sound) (depth : Nat) (names : List String) (proto : ScopeId)
    (name : String) {parent : ScopeId} (st : State) (hproto : st.symbols.scope? proto = t.scope? proto)
    (hst : t.Grows st.symbols) (hparent : parent < st.symbols.scopeCount) :
    Promises (build depth names proto name parent) st (fun _ _ => t.WellFounded proto)
      (fun _ _ => True) := by
  refine promises_build_of_fields (fun proto _ _ _ _ _ => t.WellFounded proto) ?_ depth names proto
    name st hproto hst hparent
  intro depth names proto p name parent st hp hst hparent hnested
  -- what the fields done so far embed is well-founded
  refine (promises_fields hst hparent (fun done _ => ∀ field typeName structName q vreg,
    (field, .struct typeName) ∈ done → t.lookup? (p.parent.getD globalScope) typeName
      = some (.struct structName q vreg) → t.WellFounded q) nofun ?_).mono ?_ (fun _ _ h => h)
  · intro done field v mid hv hmid hroom hdone
    refine promises_copyField sound hmid hp ?_ ?_ (fun _ _ _ => trivial)
    · intro hty other typeName structName q vreg hmem hfound
      rcases List.mem_append.mp hmem with hold | hlast
      · exact hdone other typeName structName q vreg hold hfound
      · simp only [List.mem_singleton, Prod.mk.injEq] at hlast
        rw [← hlast.2] at hty
        cases hty
    · intro typeName structName q vreg hstruct hfound
      have hq : q < t.scopeCount := SymbolTable.isSome_scope?.mp (sound.lookup? hfound)
      refine (hnested q field _ mid.drawn hq hmid hroom).mono ?_ (fun _ _ h => h)
      intro _ _ hinside other otherType otherName r vreg' hmem hfound'
      rcases List.mem_append.mp hmem with hold | hlast
      · exact hdone other otherType otherName r vreg' hold hfound'
      · simp only [List.mem_singleton, Prod.mk.injEq, hstruct, Ty.struct.injEq] at hlast
        rw [hlast.2, hfound] at hfound'
        cases hfound'
        exact hinside
  · intro _ _ hfields
    refine .intro proto ?_
    rintro q ⟨hfound, hbound, hty, hresolved⟩
    cases hfound.symm.trans hp
    exact hfields _ _ _ q _ (Scope.mem_fields.mpr ⟨_, hbound, hty⟩) hresolved

end Instance

namespace SymbolTable
open Instance (Builds)
variable {t : SymbolTable} {parent : ScopeId}

theorem exists_builds (sound : t.Sound) (hparent : (t.scope? parent).isSome) (proto : ScopeId)
    (name : String) (vregs : VRegSupply) :
    ∃ draws result after, Builds t.scopeCount draws [] proto name parent ⟨t, vregs⟩ result after :=
  Instance.exists_builds_of_promises
    (Instance.explained_build sound t.scopeCount [] name ⟨t, vregs⟩ (.refl t)
      (isSome_scope?.mp hparent) rfl List.nodup_nil (List.forall_mem_nil _) le_rfl)
    fun _ => id

theorem scopeCount_le_nestingBound (t : SymbolTable) : t.scopeCount ≤ t.nestingBound := by
  rw [nestingBound]
  omega

/-- In a sound table the construction of an instance ends, at most as many constructions deep as the
table has scopes, and that is the instance. If a struct contains itself, no instance in which it
takes part is built. -/
theorem instantiate_ends (sound : t.Sound) (hparent : (t.scope? parent).isSome) (proto : ScopeId)
    (name : String) (vregs : VRegSupply) :
    (∃ draws result after,
      Builds t.scopeCount draws [] proto name parent ⟨t, vregs⟩ result after ∧
      t.instantiate proto name parent vregs =
        (result, if result.isOk then after.symbols else t, after.vregs)) ∧
    ((∃ p, ReflTransGen t.Embeds proto p ∧ TransGen t.Embeds p p) →
      ∃ fault, (t.instantiate proto name parent vregs).1 = .error fault) := by
  obtain ⟨draws, result, after, hbuilds⟩ := exists_builds sound hparent proto name vregs
  have hroom := isSome_scope?.mp hparent
  have hinstance := instantiate_of_builds hroom hbuilds t.scopeCount_le_nestingBound
  refine ⟨⟨draws, result, after, hbuilds, hinstance⟩, ?_⟩
  rintro ⟨p, hp, hcycle⟩
  rw [hinstance]
  cases result with
  | error fault => exact ⟨fault, rfl⟩
  | ok id =>
    have hfounded := Instance.wellFounded_build sound t.scopeCount [] proto name ⟨t, vregs⟩ rfl
      (.refl t) hroom
    rw [Instance.Promises, hbuilds.run _ le_rfl] at hfounded
    exact absurd hcycle (hfounded.of_reach hp).not_cycle

theorem instantiate_ends_mutualStructs :
    mutualStructs.Sound ∧ (mutualStructs.scope? globalScope).isSome = true ∧
      (∃ p, ReflTransGen mutualStructs.Embeds 1 p ∧ TransGen mutualStructs.Embeds p p) ∧
      ∃ fault, (mutualStructs.instantiate 1 "x" globalScope ⟨4⟩).1 = .error fault := by
  have sound : mutualStructs.Sound := by decide +kernel
  have hcycle : ∃ p, ReflTransGen mutualStructs.Embeds 1 p ∧ TransGen mutualStructs.Embeds p p :=
    ⟨1, .refl, .tail (.single (.of_mem_parts (q := 2) (by decide +kernel)))
      (.of_mem_parts (by decide +kernel))⟩
  exact ⟨sound, rfl, hcycle, (instantiate_ends sound rfl 1 "x" ⟨4⟩).2 hcycle⟩

end SymbolTable
end A64Lowering
