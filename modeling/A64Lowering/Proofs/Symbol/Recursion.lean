import Mathlib
import A64Lowering.Proofs.Symbol.Building
import A64Lowering.Proofs.Symbol.Fields
import A64Lowering.Proofs.Symbol.Sound

/-! # Structs that contain themselves

* `Embeds`: a field of one prototype is a struct that the other one lays out.
* `Explained`: what the table says where the construction of an instance ends early.
  `explained_build`: it never ends early without that, and the bound on its depth is never met.
* `recursive_only_by_cycle`: if prototypes on one way down differ in name, then an instance is
  refused as recursive only where structs really contain themselves, and is built if nothing else is
  wrong. -/
namespace A64Lowering
set_option autoImplicit false

open Relation (ReflTransGen TransGen)

namespace SymbolTable
variable {t : SymbolTable}

/-! ## Structs in structs -/

/-- A field of the prototype `p` holds by value a struct that `q` lays out. -/
inductive Embeds (t : SymbolTable) (p q : ScopeId) : Prop where
  | intro {s : Scope} {field : String} {v : Variable} {typeName structName : String} {vreg : VReg}
      (found : t.scope? p = some s) (bound : s.var? field = some v) (ty : v.ty = .struct typeName)
      (resolved : t.lookup? (s.parent.getD globalScope) typeName
        = some (.struct structName q vreg))

theorem Embeds.lt (sound : t.Sound) {p q : ScopeId} (h : t.Embeds p q) : q < t.scopeCount := by
  obtain ⟨_, _, _, hresolved⟩ := h
  exact isSome_scope?.mp (sound.lookup? hresolved)

/-- What `p` embeds, field by field. -/
def parts (t : SymbolTable) (p : ScopeId) : List ScopeId :=
  (t.scope? p).elim [] fun s =>
    s.fields.filterMap fun (_, ty) =>
      ty.structName?.bind fun typeName =>
        (t.lookup? (s.parent.getD globalScope) typeName).bind Entry.layout?

theorem Embeds.mem_parts {p q : ScopeId} (h : t.Embeds p q) : q ∈ t.parts p := by
  obtain ⟨hfound, hbound, hty, hresolved⟩ := h
  rw [parts, hfound]
  refine List.mem_filterMap.mpr ⟨_, Scope.mem_fields.mpr ⟨_, hbound, hty⟩, ?_⟩
  simp only [Ty.structName?, Option.bind_some, hresolved]
  rfl

theorem Embeds.of_mem_parts {p q : ScopeId} (h : q ∈ t.parts p) : t.Embeds p q := by
  rw [parts] at h
  cases hs : t.scope? p with
  | none => simp [hs] at h
  | some s =>
    rw [hs] at h
    obtain ⟨⟨field, ty⟩, hfield, hpart⟩ := List.mem_filterMap.mp h
    obtain ⟨v, hv, rfl⟩ := Scope.mem_fields.mp hfield
    obtain ⟨typeName, hty, hfound⟩ := Option.bind_eq_some_iff.mp hpart
    obtain ⟨entry, hentry, hlayout⟩ := Option.bind_eq_some_iff.mp hfound
    obtain ⟨structName, vreg, rfl⟩ := Entry.layout?_eq_some.mp hlayout
    exact .intro hs hv (Ty.structName?_eq_some.mp hty) hentry

theorem mem_of_closed {l : List ScopeId} (closed : ∀ p ∈ l, ∀ q ∈ t.parts p, q ∈ l)
    {proto p : ScopeId} (hproto : proto ∈ l) (h : ReflTransGen t.Embeds proto p) : p ∈ l := by
  induction h with
  | refl => exact hproto
  | tail _ hpq ih => exact closed _ ih _ hpq.mem_parts

theorem not_cycle_of_rank {l : List ScopeId} (rank : ScopeId → Nat)
    (h : ∀ p ∈ l, ∀ q ∈ t.parts p, q ∈ l ∧ rank q < rank p) {p : ScopeId} (hp : p ∈ l) :
    ¬ TransGen t.Embeds p p := by
  intro hcycle
  have hlt : ∀ q, TransGen t.Embeds p q → q ∈ l ∧ rank q < rank p := by
    intro q hq
    induction hq with
    | single hpq => exact h _ hp _ hpq.mem_parts
    | tail _ hqr ih =>
      obtain ⟨hmem, hrank⟩ := h _ ih.1 _ hqr.mem_parts
      exact ⟨hmem, hrank.trans ih.2⟩
  exact Nat.lt_irrefl _ (hlt p hcycle).2

/-- The scope `id` bears this name. -/
def Named (t : SymbolTable) (id : ScopeId) (name : String) : Prop :=
  ∃ s, t.scope? id = some s ∧ s.name = name

theorem named_unique (nodup : (t.scopes.map (·.name)).Nodup) {p q : ScopeId} {n : String}
    (hp : t.Named p n) (hq : t.Named q n) : p = q := by
  have hget : ∀ {id}, t.Named id n → (t.scopes.map (·.name))[id]? = some n := by
    rintro id ⟨s, hs, rfl⟩
    rw [List.getElem?_map, show t.scopes[id]? = some s from hs]
    rfl
  have hlt := (List.getElem?_eq_some_iff.mp (hget hp)).1
  exact (List.getElem?_inj hlt nodup).mp ((hget hp).trans (hget hq).symm)

/-- Every field of the prototype `p` that is a struct has a struct type that is found. -/
def Resolves (t : SymbolTable) (p : ScopeId) : Prop :=
  ∀ s field v typeName, t.scope? p = some s → s.var? field = some v → v.ty = .struct typeName →
    ∃ structName q vreg, t.lookup? (s.parent.getD globalScope) typeName
      = some (.struct structName q vreg)

theorem resolves_iff {p : ScopeId} :
    t.Resolves p ↔ ∀ s ∈ t.scope? p, ∀ field ∈ s.fields, ∀ typeName ∈ field.2.structName?,
      ((t.lookup? (s.parent.getD globalScope) typeName).bind Entry.layout?).isSome := by
  constructor
  · rintro h s hs ⟨field, ty⟩ hfield typeName hty
    obtain ⟨v, hv, rfl⟩ := Scope.mem_fields.mp hfield
    obtain ⟨structName, q, vreg, hfound⟩ := h s field v typeName hs hv (Ty.structName?_eq_some.mp hty)
    rw [hfound]
    rfl
  · intro h s field v typeName hs hv hty
    have hsome := h s hs (field, v.ty) (Scope.mem_fields.mpr ⟨v, hv, rfl⟩) typeName
      (Ty.structName?_eq_some.mpr hty)
    obtain ⟨q, hq⟩ := Option.isSome_iff_exists.mp hsome
    obtain ⟨entry, hentry, hlayout⟩ := Option.bind_eq_some_iff.mp hq
    obtain ⟨structName, vreg, rfl⟩ := Entry.layout?_eq_some.mp hlayout
    exact ⟨structName, q, vreg, hentry⟩

instance : DecidablePred t.Resolves := fun _ => decidable_of_iff _ resolves_iff.symm

/-- What is the case in the table if the construction of an instance of `proto` ends early below
prototypes with these names. -/
def Explained (t : SymbolTable) (names : List String) (proto : ScopeId) (name : String) :
    Instance.Halt → Prop
  | .fault (.notAStruct n) => t.scope? proto = none ∧ n = name
  | .fault (.unknownStructType _ _) => ∃ p, ReflTransGen t.Embeds proto p ∧ ¬ t.Resolves p
  | .fault (.recursiveStruct n) => ∃ q, ReflTransGen t.Embeds proto q ∧ t.Named q n ∧
      (n ∈ names ∨ ∃ p, ReflTransGen t.Embeds proto p ∧ TransGen t.Embeds p q ∧ t.Named p n)
  | .tooDeep => False

/-- What explains the end for a field, explains it for the struct. -/
theorem Explained.of_embeds {names : List String} {proto q : ScopeId} {name field n : String}
    {reason : Instance.Halt} (hembeds : t.Embeds proto q) (hname : t.Named proto n)
    (hq : (t.scope? q).isSome) (h : t.Explained (n :: names) q field reason) :
    t.Explained names proto name reason := by
  match reason, h with
  | .fault (.notAStruct _), ⟨hnone, _⟩ => simp [hnone] at hq
  | .fault (.unknownStructType _ _), ⟨p, hp, hresolves⟩ => exact ⟨p, hp.head hembeds, hresolves⟩
  | .fault (.recursiveStruct _), ⟨r, hr, hnamed, hbefore⟩ =>
    refine ⟨r, hr.head hembeds, hnamed, ?_⟩
    rcases hbefore with hmem | ⟨p, hp, hpr, hpn⟩
    · rcases List.mem_cons.mp hmem with rfl | hold
      · exact .inr ⟨proto, .refl, TransGen.head' hembeds hr, hname⟩
      · exact .inl hold
    · exact .inr ⟨p, hp.head hembeds, hpr, hpn⟩

/-- Different names of scopes are no more than the scopes. -/
theorem length_le_of_named {names : List String} (nodup : names.Nodup)
    (named : ∀ n ∈ names, ∃ id, t.Named id n) : names.length ≤ t.scopeCount := by
  have hsub : names ⊆ t.scopes.map (·.name) := by
    intro n hn
    obtain ⟨id, s, hs, rfl⟩ := named n hn
    exact List.mem_map_of_mem (List.mem_of_getElem? hs)
  have hle := (nodup.subperm hsub).length_le
  rwa [List.length_map] at hle

end SymbolTable

namespace Instance
variable {t : SymbolTable}

theorem explained_copyField (sound : t.Sound) {names : List String} {proto id : ScopeId} {p : Scope}
    {name field : String} {v : Variable} {nested : Builder} {st : State} (hst : t.Grows st.symbols)
    (hp : t.scope? proto = some p) (hv : p.var? field = some v)
    (hnested : ∀ q, t.Embeds proto q → Promises (nested q field id) st.drawn (fun _ _ => True)
      (fun reason _ => t.Explained (p.name :: names) q field reason)) :
    Promises (copyField nested (p.parent.getD globalScope) id field v.ty) st (fun _ _ => True)
      (fun reason _ => t.Explained names proto name reason) := by
  refine promises_copyField sound hst hp (fun _ => trivial) ?_ ?_
  · intro typeName structName q vreg hstruct hfound
    have hembeds : t.Embeds proto q := .intro hp hv hstruct hfound
    exact (hnested q hembeds).mono (fun _ _ h => h)
      fun _ _ h => h.of_embeds hembeds ⟨p, hp, rfl⟩ (sound.lookup? hfound)
  · intro typeName hstruct hunknown
    refine ⟨proto, .refl, ?_⟩
    intro hresolves
    obtain ⟨structName, q, vreg, hfound⟩ := hresolves p field v typeName hp hv hstruct
    exact hunknown structName q vreg hfound

/-- Below prototypes with different names the construction ends early only for a reason that the
table gives. -/
theorem explained_build (sound : t.Sound) (depth : Nat) : ∀ (names : List String) {proto : ScopeId}
    (name : String) {parent : ScopeId} (st : State), t.Grows st.symbols →
    parent < st.symbols.scopeCount → st.symbols.scope? proto = t.scope? proto → names.Nodup →
    (∀ n ∈ names, ∃ id, t.Named id n) → t.scopeCount ≤ depth + names.length →
    Promises (build depth names proto name parent) st (fun _ _ => True)
      (fun reason _ => t.Explained names proto name reason) := by
  induction depth with
  | zero =>
    intro names proto name parent st hst hparent hproto nodup named hbound
    refine promises_build ?_ ?_ ?_ nofun
    · exact fun hp => ⟨hproto ▸ hp, rfl⟩
    · exact fun p hp hmem => ⟨proto, .refl, ⟨p, hproto ▸ hp, rfl⟩, .inl hmem⟩
    · -- the names on the way down and this one would be more than the scopes
      intro p hp hmem _
      have hlength := SymbolTable.length_le_of_named (List.nodup_cons.mpr ⟨hmem, nodup⟩)
        (List.forall_mem_cons.mpr ⟨⟨proto, p, hproto ▸ hp, rfl⟩, named⟩)
      rw [List.length_cons] at hlength
      omega
  | succ depth ih =>
    intro names proto name parent st hst hparent hproto nodup named hbound
    refine promises_build ?_ ?_ nofun ?_
    · exact fun hp => ⟨hproto ▸ hp, rfl⟩
    · exact fun p hp hmem => ⟨proto, .refl, ⟨p, hproto ▸ hp, rfl⟩, .inl hmem⟩
    intro p rest hp hmem hdepth
    cases hdepth
    rw [hproto] at hp
    have hnames : (p.name :: names).Nodup := List.nodup_cons.mpr ⟨hmem, nodup⟩
    have hnamed : ∀ n ∈ p.name :: names, ∃ id, t.Named id n :=
      List.forall_mem_cons.mpr ⟨⟨proto, p, hp, rfl⟩, named⟩
    refine promises_fields hst hparent (fun _ _ => True) trivial ?_
    intro done field v mid hv hmid hroom _
    refine explained_copyField sound hmid hp hv ?_
    intro q hembeds
    refine ih _ field mid.drawn hmid hroom (hmid.scope?_eq (hembeds.lt sound)) hnames hnamed ?_
    rw [List.length_cons]
    omega

end Instance

namespace SymbolTable
variable {t : SymbolTable} {proto parent : ScopeId}

/-- An instance fails only for a reason that the table gives. -/
theorem explained_instantiate (sound : t.Sound) (hparent : (t.scope? parent).isSome) (proto : ScopeId)
    (name : String) (vregs : VRegSupply) :
    (∃ id, (t.instantiate proto name parent vregs).1 = .ok id) ∨
      ∃ fault, (t.instantiate proto name parent vregs).1 = .error fault ∧
        t.Explained [] proto name (.fault fault) := by
  have hbound : t.scopeCount ≤ t.nestingBound + ([] : List String).length := by
    rw [nestingBound, List.length_nil]
    omega
  have hbuild : Instance.Promises (Instance.build t.nestingBound [] proto name parent) ⟨t, vregs⟩
      (fun _ _ => True) (fun reason _ => t.Explained [] proto name reason) :=
    Instance.explained_build sound t.nestingBound [] name ⟨t, vregs⟩ (.refl t)
      (isSome_scope?.mp hparent) rfl List.nodup_nil (List.forall_mem_nil _) hbound
  rcases instantiateWithin_of_promises hbuild with ⟨id, after, vregs', hrun, -⟩ |
    ⟨reason, st, hrun, hreason⟩
  · exact .inl ⟨id, by rw [instantiate, hrun]; rfl⟩
  · cases reason with
    | fault fault => exact .inr ⟨fault, by rw [instantiate, hrun]; rfl, hreason⟩
    | tooDeep => exact absurd hreason id

/-- Where prototypes on one way down differ in name, an instance is refused as recursive only if a
struct contains itself, and it is built if nothing else is wrong. -/
theorem recursive_only_by_cycle (sound : t.Sound) (hparent : (t.scope? parent).isSome)
    (sole : ∀ p q n, ReflTransGen t.Embeds proto p → TransGen t.Embeds p q → t.Named p n →
      t.Named q n → p = q) (name : String) (vregs : VRegSupply) :
    (∀ n, (t.instantiate proto name parent vregs).1 = .error (.recursiveStruct n) →
      ∃ p, ReflTransGen t.Embeds proto p ∧ TransGen t.Embeds p p) ∧
    ((t.scope? proto).isSome → (∀ p, ReflTransGen t.Embeds proto p → t.Resolves p) →
      (¬ ∃ p, ReflTransGen t.Embeds proto p ∧ TransGen t.Embeds p p) →
      ∃ id, (t.instantiate proto name parent vregs).1 = .ok id) := by
  have cycle : ∀ n, t.Explained [] proto name (.fault (.recursiveStruct n)) →
      ∃ p, ReflTransGen t.Embeds proto p ∧ TransGen t.Embeds p p := by
    rintro n ⟨q, hq, hqn, hmem | ⟨p, hp, hpq, hpn⟩⟩
    · exact absurd hmem List.not_mem_nil
    · obtain rfl := sole p q n hp hpq hpn hqn
      exact ⟨p, hp, hpq⟩
  rcases explained_instantiate sound hparent proto name vregs with ⟨id, hok⟩ | ⟨fault, hfault, hwhy⟩
  · rw [hok]
    exact ⟨nofun, fun _ _ _ => ⟨id, rfl⟩⟩
  · rw [hfault]
    constructor
    · intro n hn
      cases hn
      exact cycle n hwhy
    · intro hproto hresolves hacyclic
      match fault, hwhy with
      | .notAStruct _, ⟨hnone, _⟩ => simp [hnone] at hproto
      | .unknownStructType _ _, ⟨p, hp, hp'⟩ => exact absurd (hresolves p hp) hp'
      | .recursiveStruct n, hwhy => exact absurd (cycle n hwhy) hacyclic

def structField (typeName : String) (register : UInt32) : Entry :=
  .var ⟨.struct typeName, none, ⟨register⟩, none⟩

/-- Two structs `A` and `B`, each with the other one as a field, and a struct `Line` with a field that
is a `Point`. -/
def mutualStructs : SymbolTable :=
  ⟨[⟨none, globalScopeName, (((NameMap.empty.insert "A" (.struct "A" 1 ⟨0⟩)).insert "B"
      (.struct "B" 2 ⟨1⟩)).insert "Line" (.struct "Line" 3 ⟨2⟩)).insert "Point"
      (.struct "Point" 4 ⟨3⟩), [], []⟩,
    ⟨some 0, "A", NameMap.empty.insert "b" (structField "B" 4), [], []⟩,
    ⟨some 0, "B", NameMap.empty.insert "a" (structField "A" 5), [], []⟩,
    ⟨some 0, "Line", NameMap.empty.insert "from" (structField "Point" 6), [], []⟩,
    ⟨some 0, "Point", NameMap.empty.insert "x" (.var ⟨.int, none, ⟨7⟩, none⟩), [], []⟩]⟩

theorem recursive_mutualStructs :
    mutualStructs.Sound ∧ (mutualStructs.scope? globalScope).isSome = true ∧
      (∀ p q n, TransGen mutualStructs.Embeds p q → mutualStructs.Named p n →
        mutualStructs.Named q n → p = q) ∧
      (mutualStructs.instantiate 1 "x" globalScope ⟨8⟩).1 = .error (.recursiveStruct "A") ∧
      (∃ p, ReflTransGen mutualStructs.Embeds 1 p ∧ TransGen mutualStructs.Embeds p p) ∧
      (∀ p, ReflTransGen mutualStructs.Embeds 3 p → mutualStructs.Resolves p) ∧
      (¬ ∃ p, ReflTransGen mutualStructs.Embeds 3 p ∧ TransGen mutualStructs.Embeds p p) ∧
      ∃ id, (mutualStructs.instantiate 3 "l" globalScope ⟨8⟩).1 = .ok id := by
  have sound : mutualStructs.Sound := by decide +kernel
  have names : (mutualStructs.scopes.map (·.name)).Nodup := by decide +kernel
  have sole : ∀ p q n, TransGen mutualStructs.Embeds p q → mutualStructs.Named p n →
      mutualStructs.Named q n → p = q := fun p q n _ hp hq => named_unique names hp hq
  have hrun : (mutualStructs.instantiate 1 "x" globalScope ⟨8⟩).1 = .error (.recursiveStruct "A") := by
    decide +kernel
  -- a line leads to itself and to points
  have descends : ∀ p ∈ [3, 4], ∀ q ∈ mutualStructs.parts p, q ∈ [3, 4] ∧ 4 - q < 4 - p := by
    decide +kernel
  have closed : ∀ p, ReflTransGen mutualStructs.Embeds 3 p → p ∈ [3, 4] := fun p =>
    mem_of_closed (fun p hp q hq => (descends p hp q hq).1) List.mem_cons_self
  have resolves : ∀ p ∈ [3, 4], mutualStructs.Resolves p := by decide +kernel
  have acyclic : ¬ ∃ p, ReflTransGen mutualStructs.Embeds 3 p ∧ TransGen mutualStructs.Embeds p p :=
    fun ⟨p, hp, hcycle⟩ => not_cycle_of_rank (4 - ·) descends (closed p hp) hcycle
  have hresolves : ∀ p, ReflTransGen mutualStructs.Embeds 3 p → mutualStructs.Resolves p :=
    fun p hp => resolves p (closed p hp)
  exact ⟨sound, rfl, sole, hrun,
    (recursive_only_by_cycle sound rfl (fun p q n _ => sole p q n) "x" ⟨8⟩).1 "A" hrun, hresolves,
    acyclic,
    (recursive_only_by_cycle sound rfl (fun p q n _ => sole p q n) "l" ⟨8⟩).2 rfl hresolves acyclic⟩

/-- A local struct `P` with a field `Q`, and the global `Q` with a field that is the global `P`. -/
def shadowedStruct : SymbolTable :=
  ⟨[⟨none, globalScopeName, (NameMap.empty.insert "P" (.struct "P" 1 ⟨0⟩)).insert "Q"
      (.struct "Q" 4 ⟨1⟩), [], []⟩,
    ⟨some 0, "P", .empty, [], []⟩,
    ⟨some 0, "f", NameMap.empty.insert "P" (.struct "P" 3 ⟨2⟩), [], []⟩,
    ⟨some 2, "P", NameMap.empty.insert "q" (structField "Q" 3), [], []⟩,
    ⟨some 0, "Q", NameMap.empty.insert "p" (structField "P" 4), [], []⟩]⟩

/-- The local `P` does not contain itself, but no instance of it is built. -/
theorem recursive_shadowedStruct :
    ¬ ∀ t : SymbolTable, t.Sound → ∀ (proto : ScopeId) (name : String) (parent : ScopeId)
      (vregs : VRegSupply), (t.scope? parent).isSome = true → ∀ n,
      (t.instantiate proto name parent vregs).1 = .error (.recursiveStruct n) →
      ∃ p, ReflTransGen t.Embeds proto p ∧ TransGen t.Embeds p p := by
  intro h
  have sound : shadowedStruct.Sound := by decide +kernel
  have hrun : (shadowedStruct.instantiate 3 "v" 2 ⟨5⟩).1 = .error (.recursiveStruct "P") := by
    decide +kernel
  obtain ⟨p, hp, hcycle⟩ := h shadowedStruct sound 3 "v" 2 ⟨5⟩ rfl "P" hrun
  let rank : ScopeId → Nat := fun id => [0, 0, 0, 2, 1].getD id 0
  have descends : ∀ p ∈ [1, 3, 4], ∀ q ∈ shadowedStruct.parts p, q ∈ [1, 3, 4] ∧ rank q < rank p := by
    decide +kernel
  have hmem : p ∈ [1, 3, 4] := mem_of_closed (fun p hp q hq => (descends p hp q hq).1) (by decide) hp
  exact not_cycle_of_rank rank descends hmem hcycle

end SymbolTable
end A64Lowering
