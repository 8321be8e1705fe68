import Mathlib
import A64Lowering.Proofs.Symbol.Building
import A64Lowering.Proofs.Symbol.Fields
import A64Lowering.Proofs.Symbol.Sound

/-! # Copies of prototypes

* `SymbolTable.CopyOf`: a scope has a variable of its own for each variable of a prototype, and
  under each field that is a struct a copy of that struct's prototype. `CopyOf.mono`: what happens
  to other scopes later does not matter.
* `Filling`: a copy whose first fields are done. `Filling.bind`: one more field.
* `copied_build`: what the construction of an instance builds is a copy. -/
namespace A64Lowering
set_option autoImplicit false

namespace SymbolTable

mutual

/-- `id` is a scope of `after`, from `base` on, with this name inside `parent`. It takes over the
ordered names of the prototype that `proto` is in `before`, and binds exactly its variables. -/
inductive CopyOf (before after : SymbolTable) (base : Nat) :
    (proto : ScopeId) → (name : String) → (parent id : ScopeId) → Prop where
  | intro {proto : ScopeId} {name : String} {parent id : ScopeId} {p s : Scope}
      (laidOut : before.scope? proto = some p) (found : after.scope? id = some s)
      (fresh : base ≤ id) (named : s.name = name) (inside : s.parent = some parent)
      (names : s.orderedNames = p.orderedNames) (types : s.orderedTypes = p.orderedTypes)
      (fields : ∀ field v, p.var? field = some v →
        CopiedField before after base (p.parent.getD globalScope) id field v.ty
          (s.entries.get? field))
      (others : ∀ field, p.var? field = none → s.entries.get? field = none) :
      CopyOf before after base proto name parent id

/-- The binding is a variable of this type without a literal. Under a struct it has a copy of the
prototype that the type has in `typeScope`, named after the field and inside `id`. -/
inductive CopiedField (before after : SymbolTable) (base : Nat) :
    (typeScope id : ScopeId) → (field : String) → Ty → Option Entry → Prop where
  | plain {typeScope id : ScopeId} {field : String} {ty : Ty} {vreg : VReg}
      (notStruct : ty.structName? = none) :
      CopiedField before after base typeScope id field ty (some (.var ⟨ty, none, vreg, none⟩))
  | nested {typeScope id proto inner : ScopeId} {field typeName structName : String}
      {vreg structVreg : VReg}
      (resolved : before.lookup? typeScope typeName = some (.struct structName proto structVreg))
      (copy : CopyOf before after base proto field id inner) :
      CopiedField before after base typeScope id field (.struct typeName)
        (some (.var ⟨.struct typeName, none, vreg, some inner⟩))

end

section Mono
variable {before after after' : SymbolTable} {base base' : Nat}

/-- The scopes from `base` on are in the other table too. -/
def KeptFrom (base : Nat) (after after' : SymbolTable) : Prop :=
  ∀ id s, base ≤ id → after.scope? id = some s → after'.scope? id = some s

theorem CopyOf.mono (hbase : base' ≤ base) (kept : KeptFrom base after after') {proto : ScopeId}
    {name : String} {parent id : ScopeId} (h : CopyOf before after base proto name parent id) :
    CopyOf before after' base' proto name parent id := by
  refine @CopyOf.rec before after base
    (fun proto name parent id _ => CopyOf before after' base' proto name parent id)
    (fun typeScope id field ty entry _ =>
      CopiedField before after' base' typeScope id field ty entry) ?_ ?_ ?_ _ _ _ _ h
  · intro proto name parent id p s laidOut found fresh named inside names types _ others ih
    exact .intro laidOut (kept id s fresh found) (hbase.trans fresh) named inside names types ih
      others
  · intro typeScope id field ty vreg notStruct
    exact .plain notStruct
  · intro typeScope id proto inner field typeName structName vreg structVreg resolved _ ih
    exact .nested resolved ih

theorem CopiedField.mono (hbase : base' ≤ base) (kept : KeptFrom base after after')
    {typeScope id : ScopeId} {field : String} {ty : Ty} {entry : Option Entry}
    (h : CopiedField before after base typeScope id field ty entry) :
    CopiedField before after' base' typeScope id field ty entry := by
  cases h with
  | plain notStruct => exact .plain notStruct
  | nested resolved copy => exact .nested resolved (copy.mono hbase kept)

theorem Grows.keptFrom (h : after.Grows after') (base : Nat) : KeptFrom base after after' :=
  fun id s _ hs => h.kept id s hs

theorem KeptFrom.trans {after'' : SymbolTable} (h : KeptFrom base after after')
    (h' : KeptFrom base after' after'') : KeptFrom base after after'' :=
  fun id s hid hs => h' id s hid (h id s hid hs)

theorem keptFrom_modifyScope {changed : ScopeId} (hchanged : changed < base) (f : Scope → Scope) :
    KeptFrom base after (after.modifyScope changed f) := by
  intro id s hid hs
  rw [scope?_modifyScope, if_neg (hchanged.trans_le hid).ne]
  exact hs

end Mono

/-! ## Copies in the making -/

/-- `start` is a copy of the prototype `p`, as far as the fields `done` are concerned. -/
def Filling (t : SymbolTable) (p : Scope) (start : ScopeId) (name : String) (parent : ScopeId)
    (done : List (String × Ty)) (u : SymbolTable) : Prop :=
  ∃ s, u.scope? start = some s ∧ s.name = name ∧ s.parent = some parent ∧
    (∀ field v, p.var? field = some v → field ∈ done.map Prod.fst →
      CopiedField t u (start + 1) (p.parent.getD globalScope) start field v.ty
        (s.entries.get? field)) ∧
    ∀ field, field ∉ done.map Prod.fst → s.entries.get? field = none

section Filling
variable {t mid after : SymbolTable} {p : Scope} {start : ScopeId} {name : String}
  {parent : ScopeId} {done : List (String × Ty)}

theorem filling_push (t : SymbolTable) (p : Scope) (u : SymbolTable) (name : String)
    (parent : ScopeId) :
    Filling t p u.scopeCount name parent [] (u.pushScope parent name).2 := by
  refine ⟨.ofName (some parent) name, ?_, rfl, rfl, ?_, ?_⟩
  · rw [scope?_pushScope, if_pos rfl]
  · exact fun field v _ hmem => absurd hmem List.not_mem_nil
  · exact fun field _ => rfl

/-- One more field is done when a copied variable is bound to its name. -/
theorem Filling.bind (h : Filling t p start name parent done mid) (hgrows : mid.Grows after)
    {field : String} {v : Variable} {entry : Entry} (hv : p.var? field = some v)
    (hentry : CopiedField t after (start + 1) (p.parent.getD globalScope) start field v.ty
      (some entry)) :
    Filling t p start name parent (done ++ [(field, v.ty)])
      (after.modifyScope start (·.bind field entry)) := by
  obtain ⟨s, hs, hname, hparent, hfields, hothers⟩ := h
  have hstart : (after.modifyScope start (·.bind field entry)).scope? start
      = some (s.bind field entry) := by
    rw [scope?_modifyScope, if_pos rfl, hgrows.kept start s hs]
    rfl
  have hkept : KeptFrom (start + 1) after (after.modifyScope start (·.bind field entry)) :=
    keptFrom_modifyScope (Nat.lt_succ_self start) _
  refine ⟨s.bind field entry, hstart, hname, hparent, ?_, ?_⟩
  · intro other w hw hmem
    rw [Scope.get?_bind]
    split
    · next heq =>
      subst heq
      rw [hv] at hw
      cases hw
      exact hentry.mono le_rfl hkept
    · next hne =>
      have hdone : other ∈ done.map Prod.fst := by
        rw [List.map_append, List.mem_append] at hmem
        exact hmem.resolve_right fun h => hne (List.mem_singleton.mp h)
      exact (hfields other w hw hdone).mono le_rfl ((hgrows.keptFrom _).trans hkept)
  · intro other hmem
    rw [List.map_append, List.mem_append, not_or] at hmem
    rw [Scope.get?_bind, if_neg fun heq => hmem.2 (List.mem_singleton.mpr heq)]
    exact hothers other hmem.1

/-- A copy whose fields are all done lacks the ordered names only. -/
theorem Filling.copyOf (h : Filling t p start name parent p.fields after) {proto : ScopeId}
    (hp : t.scope? proto = some p) :
    CopyOf t (after.modifyScope start (·.takeOrder p)) start proto name
      parent start := by
  obtain ⟨s, hs, hname, hparent, hfields, hothers⟩ := h
  have hstart : (after.modifyScope start (·.takeOrder p)).scope? start
      = some (s.takeOrder p) := by
    rw [scope?_modifyScope, if_pos rfl, hs]
    rfl
  refine .intro hp hstart le_rfl hname hparent rfl rfl ?_ ?_
  · intro field v hv
    have hmem : field ∈ p.fields.map Prod.fst :=
      List.mem_map.mpr ⟨(field, v.ty), Scope.mem_fields.mpr ⟨v, hv, rfl⟩, rfl⟩
    exact (hfields field v hv hmem).mono (Nat.le_succ start)
      (keptFrom_modifyScope (Nat.lt_succ_self start) _)
  · intro field hnone
    refine hothers field ?_
    intro hmem
    obtain ⟨⟨other, ty⟩, hfield, rfl⟩ := List.mem_map.mp hmem
    obtain ⟨v, hv, -⟩ := Scope.mem_fields.mp hfield
    rw [hnone] at hv
    cases hv

end Filling
end SymbolTable

/-! ## The construction copies -/

namespace Instance
open SymbolTable (CopyOf CopiedField Filling)
variable {t : SymbolTable}

/-- The instance is the next scope of the table, and a copy. -/
def Copies (t : SymbolTable) (proto : ScopeId) (name : String) (parent : ScopeId) (st : State)
    (id : ScopeId) (after : State) : Prop :=
  id = st.symbols.scopeCount ∧ CopyOf t after.symbols id proto name parent id

theorem filling_copyField (sound : t.Sound) {proto start : ScopeId} {p : Scope} {name : String}
    {parent : ScopeId} {done : List (String × Ty)} {field : String} {v : Variable}
    {nested : Builder} {st : State} (hst : t.Grows st.symbols) (hroom : start < st.symbols.scopeCount)
    (hp : t.scope? proto = some p) (hv : p.var? field = some v)
    (hfilling : Filling t p start name parent done st.symbols)
    (hnested : ∀ q, q < t.scopeCount → Promises (nested q field start) st.drawn
      (fun inner after => st.symbols.Grows after.symbols ∧
        Copies t q field start st.drawn inner after) (fun _ _ => True)) :
    Promises (copyField nested (p.parent.getD globalScope) start field v.ty) st
      (fun _ after => Filling t p start name parent (done ++ [(field, v.ty)]) after.symbols)
      (fun _ _ => True) := by
  refine promises_copyField sound hst hp ?_ ?_ (fun _ _ _ => trivial)
  · intro hty
    exact hfilling.bind (SymbolTable.Grows.refl st.symbols) hv (.plain hty)
  · intro typeName structName q vreg hstruct hfound
    have hq : q < t.scopeCount := SymbolTable.isSome_scope?.mp (sound.lookup? hfound)
    refine (hnested q hq).mono ?_ (fun _ _ h => h)
    rintro inner after ⟨hgrows, hinner, hcopy⟩
    have hbase : start + 1 ≤ inner := hinner ▸ hroom
    refine hfilling.bind hgrows hv ?_
    rw [hstruct]
    exact .nested hfound (hcopy.mono hbase fun _ _ _ hs => hs)

/-- The construction goes through the fields of a prototype that the table has, one after another. -/
theorem filling_fields (sound : t.Sound) (depth : Nat) (names : List String) (name : String)
    {proto parent : ScopeId} {p : Scope} {st : State} (hst : t.Grows st.symbols)
    (hparent : parent < st.symbols.scopeCount) (hp : t.scope? proto = some p)
    (hnested : PromisesNested t depth names (Copies t)) :
    Promises (copyFields depth names p st.symbols.scopeCount) (st.push parent name)
      (fun _ after => Filling t p st.symbols.scopeCount name parent p.fields after.symbols)
      (fun _ _ => True) := by
  refine promises_fields hst hparent
    (fun done mid => Filling t p st.symbols.scopeCount name parent done mid.symbols)
    (SymbolTable.filling_push t p _ name parent) ?_
  intro done field v mid hv hmid hroom hfilling
  refine filling_copyField sound hmid hroom hp hv hfilling ?_
  intro q hq
  exact ((grows_build depth names q field mid.drawn hroom).and
    (hnested q field _ mid.drawn hq hmid hroom)).mono (fun _ _ h => h) (fun _ _ _ => trivial)

/-- An instance that is built is a copy of its prototype. -/
theorem copied_build (sound : t.Sound) (depth : Nat) (names : List String) (proto : ScopeId)
    (name : String) {parent : ScopeId} (st : State) (hproto : st.symbols.scope? proto = t.scope? proto)
    (hst : t.Grows st.symbols) (hparent : parent < st.symbols.scopeCount) :
    Promises (build depth names proto name parent) st (Copies t proto name parent st)
      (fun _ _ => True) := by
  refine promises_build_of_fields (Copies t) ?_ depth names proto name st hproto hst hparent
  intro depth names proto p name parent st hp hst hparent hnested
  refine (filling_fields sound depth names name hst hparent hp hnested).mono ?_ (fun _ _ h => h)
  exact fun _ after hfilling => ⟨rfl, hfilling.copyOf hp⟩

end Instance
end A64Lowering
