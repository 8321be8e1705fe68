import Mathlib
import A64Lowering.Proofs.Symbol.Nesting

/-! # Instances that fail

* `SymbolTable.Known`: all names that a way down can come by are listed.
* `Instance.shallow_build`: no way down is longer than the names listed, in whatever table, so that
  the nesting bound is never met.
* `SymbolTable.instantiate_fails_clean`: an instance that fails leaves the table as it was, and the
  registers drawn stay drawn. -/
namespace A64Lowering
set_option autoImplicit false

/-! ## The names of a table -/

/-- The names of the scope and of its variables are listed. -/
def Scope.Known (N : List String) (s : Scope) : Prop :=
  s.name ∈ N ∧ ∀ field v, s.var? field = some v → field ∈ N

theorem Scope.Known.bind {N : List String} {s : Scope} (h : s.Known N) {field : String}
    (hfield : field ∈ N) (entry : Entry) : (s.bind field entry).Known N := by
  refine ⟨h.1, ?_⟩
  intro other v hv
  rw [Scope.var?_bind] at hv
  split at hv
  · next hname => exact hname ▸ hfield
  · exact h.2 other v hv

namespace SymbolTable
variable {t : SymbolTable} {N : List String}

def Known (N : List String) (t : SymbolTable) : Prop := ∀ id s, t.scope? id = some s → s.Known N

theorem Known.pushScope (h : t.Known N) (parent : ScopeId) {name : String} (hname : name ∈ N) :
    (t.pushScope parent name).2.Known N := by
  intro id s hs
  rcases scope?_of_pushScope hs with ⟨-, rfl⟩ | hold
  · exact ⟨hname, nofun⟩
  · exact h id s hold

theorem Known.modifyScope (h : t.Known N) (changed : ScopeId) {f : Scope → Scope}
    (hf : ∀ s, s.Known N → (f s).Known N) : (t.modifyScope changed f).Known N := by
  intro id s hs
  rcases scope?_of_modifyScope hs with ⟨-, old, hold, rfl⟩ | hold
  · exact hf old (h id old hold)
  · exact h id s hold

def allNames (t : SymbolTable) : List String :=
  t.scopes.map (·.name) ++ t.scopes.flatMap (·.entries.names)

theorem known_allNames (t : SymbolTable) : t.Known t.allNames := by
  intro id s hs
  have hmem : s ∈ t.scopes := List.mem_of_getElem? hs
  refine ⟨List.mem_append_left _ (List.mem_map_of_mem hmem), ?_⟩
  intro field v hv
  obtain ⟨entry, hentry, -⟩ := Option.bind_eq_some_iff.mp hv
  refine List.mem_append_right _ (List.mem_flatMap.mpr ⟨s, hmem, ?_⟩)
  exact List.mem_map_of_mem ((NameMap.mem_iff_lookup s.entries.sorted).mpr hentry)

theorem Known.mono {M : List String} (h : t.Known N) (hsub : N ⊆ M) : t.Known M :=
  fun id s hs => ⟨hsub (h id s hs).1, fun field v hv => hsub ((h id s hs).2 field v hv)⟩

end SymbolTable

/-! ## No way down is long -/

namespace Instance
open SymbolTable (Known)

/-- The prototypes on a way down bear different names that are listed, so the bound is not met. -/
theorem shallow_build (N : List String) (depth : Nat) : ∀ (names : List String) (proto : ScopeId)
    (name : String) (parent : ScopeId) (st : State), st.symbols.Known N → name ∈ N → names.Nodup →
    names ⊆ N → N.length ≤ depth + names.length →
    Promises (build depth names proto name parent) st (fun _ after => after.symbols.Known N)
      (fun reason _ => reason ≠ .tooDeep) := by
  induction depth with
  | zero =>
    -- all names listed are on the way down, so the next prototype has none that is new
    intro names proto name parent st hst _ nodup hsub hlength
    refine promises_build (fun _ => nofun) (fun _ _ _ => nofun) ?_ nofun
    intro p hp hmem
    have hle := ((List.nodup_cons.mpr ⟨hmem, nodup⟩).subperm
      (List.cons_subset.mpr ⟨(hst proto p hp).1, hsub⟩)).length_le
    rw [List.length_cons] at hle
    omega
  | succ depth ih =>
    intro names proto name parent st hst hname nodup hsub hlength
    refine promises_build (fun _ => nofun) (fun _ _ _ => nofun) nofun ?_
    intro p rest hp hmem hdepth
    cases hdepth
    have hp' := hst proto p hp
    refine (promises_forM (fun _ mid => mid.symbols.Known N) (hst.pushScope parent hname) ?_).mono
      ?_ (fun _ _ h => h)
    · rintro done ⟨field, ty⟩ others mid hfields hmid
      have hfield : field ∈ N := by
        have hmem : (field, ty) ∈ p.fields := hfields ▸ List.mem_append_right _ List.mem_cons_self
        obtain ⟨v, hv, -⟩ := Scope.mem_fields.mp hmem
        exact hp'.2 field v hv
      refine promises_copyField_of_bind (fun u => u.symbols.Known N) hmid ?_ ?_ (fun _ => nofun)
      · exact fun u _ _ hu => hu.modifyScope _ fun _ hs => hs.bind hfield _
      · intro q
        refine ih (p.name :: names) q field _ mid.drawn hmid hfield
          (List.nodup_cons.mpr ⟨hmem, nodup⟩) (List.cons_subset.mpr ⟨hp'.1, hsub⟩) ?_
        rw [List.length_cons]
        omega
    · exact fun _ _ h => h.modifyScope _ fun _ hs => hs

end Instance

namespace SymbolTable
open Instance (Builds State)
variable {t : SymbolTable} {parent : ScopeId}

/-- In whatever table, the construction ends within the nesting bound. -/
theorem exists_builds_nestingBound (t : SymbolTable) (proto : ScopeId) (name : String)
    (parent : ScopeId) (vregs : VRegSupply) : ∃ draws result after,
      Builds t.nestingBound draws [] proto name parent ⟨t, vregs⟩ result after := by
  refine Instance.exists_builds_of_promises (Instance.shallow_build (name :: t.allNames)
    t.nestingBound [] proto name parent ⟨t, vregs⟩ ?_ List.mem_cons_self List.nodup_nil
    (List.nil_subset _) ?_) fun _ h => h rfl
  · exact t.known_allNames.mono (List.subset_cons_self _ _)
  · simp only [allNames, nestingBound, scopeCount, List.length_cons, List.length_append,
      List.length_map, List.length_nil]
    omega

/-- An instance that fails leaves the table as it was, whatever was built before the fault. The
supply has moved on by the registers that the construction drew, so it does not go back unless it
overflows. -/
theorem instantiate_fails_clean (hparent : (t.scope? parent).isSome) {proto : ScopeId}
    {name : String} {vregs vregs' : VRegSupply} {fault : StructFault} {after : SymbolTable}
    (h : t.instantiate proto name parent vregs = (.error fault, after, vregs')) :
    after = t ∧ ∃ draws last,
      Builds t.nestingBound draws [] proto name parent ⟨t, vregs⟩ (.error fault) last ∧
      vregs' = last.vregs ∧ vregs'.drawn = vregs.drawn + .ofNat draws ∧
      (vregs.drawn.toNat + draws < UInt32.size → vregs.drawn ≤ vregs'.drawn) := by
  obtain ⟨draws, result, last, hbuilds⟩ := exists_builds_nestingBound t proto name parent vregs
  have hinstance := instantiate_of_builds (isSome_scope?.mp hparent) hbuilds le_rfl
  rw [h] at hinstance
  simp only [Prod.mk.injEq] at hinstance
  obtain ⟨rfl, rfl, rfl⟩ := hinstance
  have hdrawn := hbuilds.drawn
  refine ⟨rfl, draws, last, hbuilds, rfl, hdrawn, ?_⟩
  intro hsize
  rw [hdrawn, UInt32.le_iff_toNat_le, UInt32.toNat_add, UInt32.toNat_ofNat_of_lt' (by omega),
    Nat.mod_eq_of_lt hsize]
  exact Nat.le_add_right _ _

/-- A struct with a field `a` that has an instance, and a field `b` whose layout does not exist. -/
def danglingStruct : SymbolTable :=
  ⟨[⟨none, globalScopeName, (NameMap.empty.insert "Ghost" (.struct "Ghost" 9 ⟨0⟩)).insert "Inner"
      (.struct "Inner" 1 ⟨1⟩), [], []⟩,
    ⟨some 0, "Inner", NameMap.empty.insert "x" (.var ⟨.int, none, ⟨2⟩, none⟩), [], []⟩,
    ⟨some 0, "Outer", (NameMap.empty.insert "a" (.var ⟨.struct "Inner", none, ⟨3⟩, none⟩)).insert "b"
      (.var ⟨.struct "Ghost", none, ⟨4⟩, none⟩), [], []⟩]⟩

theorem instantiate_fails_clean_danglingStruct :
    (danglingStruct.scope? globalScope).isSome = true ∧
      (danglingStruct.instantiate 2 "o" globalScope ⟨5⟩).1 = .error (.notAStruct "b") ∧
      (danglingStruct.instantiate 2 "o" globalScope ⟨5⟩).2.1 = danglingStruct ∧
      (danglingStruct.instantiate 2 "o" globalScope ⟨5⟩).2.2 = ⟨8⟩ := by
  have hfault : (danglingStruct.instantiate 2 "o" globalScope ⟨5⟩).1 = .error (.notAStruct "b") := by
    decide +kernel
  have hrun : danglingStruct.instantiate 2 "o" globalScope ⟨5⟩
      = (.error (.notAStruct "b"), (danglingStruct.instantiate 2 "o" globalScope ⟨5⟩).2) := by
    rw [← hfault]
  exact ⟨rfl, hfault, (instantiate_fails_clean rfl hrun).1, by decide +kernel⟩

end SymbolTable
end A64Lowering
