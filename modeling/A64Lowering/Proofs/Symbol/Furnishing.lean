import Mathlib
import A64Lowering.Proofs.Symbol.Failure

/-! # What the construction of an instance leaves

* `Instance.Fills.filled`: the scope whose fields are copied binds them, and nothing else that is
  new. `Builds.made`: what the new scope is.
* `SymbolTable.Furnished`: all names in the scopes from one on are variables, and the scope of the
  fields of such a variable is inside its own. `Builds.furnished`: the construction keeps this of
  the new scopes, however it ends.
* `builds_of_instantiate`: the construction that an instance comes from. -/
namespace A64Lowering
set_option autoImplicit false

namespace SymbolTable
variable {t u : SymbolTable} {start : ScopeId}

/-- The scope `id` bears this name and is inside `parent`. -/
def Situated (t : SymbolTable) (name : String) (parent id : ScopeId) : Prop :=
  ∃ s, t.scope? id = some s ∧ s.name = name ∧ s.parent = some parent

theorem Situated.pushScope {name : String} {parent id : ScopeId} (h : t.Situated name parent id)
    (other : ScopeId) (label : String) : (t.pushScope other label).2.Situated name parent id := by
  obtain ⟨s, hs, hsituated⟩ := h
  refine ⟨s, ?_, hsituated⟩
  rw [scope?_pushScope, if_neg (scope?_lt hs).ne]
  exact hs

theorem Situated.modifyScope {name : String} {parent id : ScopeId} (h : t.Situated name parent id)
    (changed : ScopeId) {f : Scope → Scope} (hname : ∀ s, (f s).name = s.name)
    (hparent : ∀ s, (f s).parent = s.parent) :
    (t.modifyScope changed f).Situated name parent id := by
  obtain ⟨s, hs, rfl, hsituated⟩ := h
  by_cases hchanged : changed = id
  · refine ⟨f s, ?_, hname s, (hparent s).trans hsituated⟩
    rw [scope?_modifyScope, if_pos hchanged, hs]
    rfl
  · refine ⟨s, ?_, rfl, hsituated⟩
    rw [scope?_modifyScope, if_neg hchanged]
    exact hs

/-- All names in the scopes from `start` on are variables, and where the fields of one of them have
a scope, it is named after the variable and inside the variable's scope. -/
def Furnished (start : ScopeId) (t : SymbolTable) : Prop :=
  ∀ id s field entry, start ≤ id → t.scope? id = some s → s.entries.get? field = some entry →
    ∃ v, entry = .var v ∧ ∀ inner, v.fields = some inner → t.Situated field id inner

theorem furnished_scopeCount (t : SymbolTable) : t.Furnished t.scopeCount := by
  intro id s field entry hid hs _
  exact absurd (scope?_lt hs) (Nat.not_lt.mpr hid)

namespace Furnished

theorem pushScope (h : t.Furnished start) (parent : ScopeId) (name : String) :
    (t.pushScope parent name).2.Furnished start := by
  intro id s field entry hid hs hentry
  rcases scope?_of_pushScope hs with ⟨-, rfl⟩ | hold
  · cases hentry
  · obtain ⟨v, rfl, hv⟩ := h id s field entry hid hold hentry
    exact ⟨v, rfl, fun inner hinner => (hv inner hinner).pushScope parent name⟩

/-- A variable may be bound if the scope of its fields is there. -/
theorem bind (h : t.Furnished start) {id : ScopeId} {field : String} {v : Variable}
    (hv : ∀ inner, v.fields = some inner → t.Situated field id inner) :
    (t.modifyScope id (·.bind field (.var v))).Furnished start := by
  intro other s name entry hother hs hentry
  have hkept : ∀ {label parent inner}, t.Situated label parent inner →
      (t.modifyScope id (·.bind field (.var v))).Situated label parent inner := fun hsituated =>
    hsituated.modifyScope id (fun _ => rfl) fun _ => rfl
  -- a binding that was there before
  have hold : ∀ old, t.scope? other = some old → old.entries.get? name = some entry →
      ∃ w, entry = .var w ∧ ∀ inner, w.fields = some inner →
        (t.modifyScope id (·.bind field (.var v))).Situated name other inner := by
    intro old hs hentry
    obtain ⟨w, rfl, hw⟩ := h other old name entry hother hs hentry
    exact ⟨w, rfl, fun inner hinner => hkept (hw inner hinner)⟩
  rcases scope?_of_modifyScope hs with ⟨rfl, old, hscope, rfl⟩ | hscope
  · rcases Scope.get?_of_bind hentry with ⟨rfl, rfl⟩ | hget
    · exact ⟨v, rfl, fun inner hinner => hkept (hv inner hinner)⟩
    · exact hold old hscope hget
  · exact hold s hscope hentry

/-- The ordered names do not matter. -/
theorem order (h : t.Furnished start) (id : ScopeId) (p : Scope) :
    (t.modifyScope id (·.takeOrder p)).Furnished start := by
  intro other s field entry hother hs hentry
  have hscope : ∃ old, t.scope? other = some old ∧ old.entries.get? field = some entry := by
    rcases scope?_of_modifyScope hs with ⟨-, old, hold, rfl⟩ | hold
    · exact ⟨old, hold, hentry⟩
    · exact ⟨s, hold, hentry⟩
  obtain ⟨old, hold, hget⟩ := hscope
  obtain ⟨v, rfl, hv⟩ := h other old field entry hother hold hget
  exact ⟨v, rfl, fun inner hinner => (hv inner hinner).modifyScope id (fun _ => rfl) fun _ => rfl⟩

end Furnished
end SymbolTable

namespace Instance
open SymbolTable (Furnished)
variable {start : ScopeId}

/-- The table grows on the way to the end. -/
theorem Builds.grows {nesting draws names proto name parent result} {st after : State}
    (h : Builds nesting draws names proto name parent st result after)
    (hparent : parent < st.symbols.scopeCount) : st.symbols.Grows after.symbols := by
  have hgrows := grows_build nesting names proto name st hparent
  rw [Promises, h.run nesting le_rfl] at hgrows
  cases result <;> exact hgrows

/-! ## The scope in the making -/

theorem scope?_bindVar {st : State} {id : ScopeId} {s : Scope}
    (hs : st.symbols.scope? id = some s) (field : String) (ty : Ty) (vreg : VReg)
    (inner : Option ScopeId) :
    (st.bindVar id field ty vreg inner).symbols.scope? id
      = some (s.bind field (.var ⟨ty, none, vreg, inner⟩)) := by
  rw [State.bindVar, State.modify, SymbolTable.scope?_modifyScope, if_pos rfl, hs]
  rfl

/-- `s'` is `s` with variables for these fields, whose other bindings are those of `s`. -/
structure Filled (fields : List (String × Ty)) (s s' : Scope) : Prop where
  name : s'.name = s.name
  parent : s'.parent = s.parent
  bound : ∀ field ∈ fields.map Prod.fst, (s'.var? field).isSome
  others : ∀ field, field ∉ fields.map Prod.fst → s'.entries.get? field = s.entries.get? field

theorem Filled.cons {fields : List (String × Ty)} {s s' : Scope} {field : String} {ty : Ty}
    {v : Variable} (h : Filled fields (s.bind field (.var v)) s') :
    Filled ((field, ty) :: fields) s s' := by
  refine ⟨h.name, h.parent, ?_, ?_⟩
  · intro other hother
    by_cases hrest : other ∈ fields.map Prod.fst
    · exact h.bound other hrest
    · obtain rfl : other = field := (List.mem_cons.mp hother).resolve_right hrest
      rw [Scope.var?, h.others other hrest, Scope.get?_bind, if_pos rfl]
      rfl
  · intro other hother
    rw [List.map_cons, List.mem_cons, not_or] at hother
    rw [h.others other hother.2, Scope.get?_bind, if_neg hother.1]

/-- The scope into which the fields are copied has a variable for each of them, and what else it
bound before. -/
theorem Fills.filled {nesting draws names typeScope id fields result} {st after : State} {s : Scope}
    (h : Fills nesting draws names typeScope id fields st result after) (ok : result = .ok ())
    (hs : st.symbols.scope? id = some s) :
    ∃ s', after.symbols.scope? id = some s' ∧ Filled fields s s' := by
  match h with
  | .done => exact ⟨s, hs, rfl, rfl, nofun, fun _ _ => rfl⟩
  | .plain _ others =>
    obtain ⟨s', hs', hfilled⟩ := others.filled ok (scope?_bindVar hs _ _ _ _)
    exact ⟨s', hs', hfilled.cons⟩
  | .inner _ built copied =>
    -- the instance of the field is built in other scopes
    have hmid := (built.grows (SymbolTable.scope?_lt hs)).kept id s hs
    obtain ⟨s', hs', hfilled⟩ := copied.filled ok (scope?_bindVar hmid _ _ _ _)
    exact ⟨s', hs', hfilled.cons⟩
  | .unknown _ | .stopped _ _ => cases ok
termination_by structural h

/-- The new scope is the next one of the table, has the name and the parent, takes over the ordered
names of the prototype, and binds just the names that are variables there. -/
theorem Builds.made {nesting draws names proto name parent id} {st after : State}
    (h : Builds nesting draws names proto name parent st (.ok id) after) :
    id = st.symbols.scopeCount ∧ ∃ p s, st.symbols.scope? proto = some p ∧
      after.symbols.scope? id = some s ∧ s.name = name ∧ s.parent = some parent ∧
      s.orderedNames = p.orderedNames ∧ s.orderedTypes = p.orderedTypes ∧
      (∀ field, (p.var? field).isSome → (s.var? field).isSome) ∧
      ∀ field, p.var? field = none → s.entries.get? field = none := by
  match h with
  | .built (p := p) found _ copied =>
    have hpush : (st.push parent name).symbols.scope? st.symbols.scopeCount
        = some (.ofName (some parent) name) := by
      rw [State.push, SymbolTable.scope?_pushScope, if_pos rfl]
    obtain ⟨s, hs, hfilled⟩ := copied.filled rfl hpush
    refine ⟨rfl, p, s.takeOrder p, found, ?_, hfilled.name, hfilled.parent, rfl,
      rfl, ?_, ?_⟩
    · rw [State.modify, SymbolTable.scope?_modifyScope, if_pos rfl, hs]
      rfl
    · intro field hfield
      obtain ⟨v, hv⟩ := Option.isSome_iff_exists.mp hfield
      exact hfilled.bound field
        (List.mem_map.mpr ⟨(field, v.ty), Scope.mem_fields.mpr ⟨v, hv, rfl⟩, rfl⟩)
    · intro field hnone
      refine hfilled.others field ?_
      intro hmem
      obtain ⟨⟨other, ty⟩, hfield, rfl⟩ := List.mem_map.mp hmem
      obtain ⟨v, hv, -⟩ := Scope.mem_fields.mp hfield
      rw [hnone] at hv
      cases hv

/-! ## All scopes in the making -/

theorem lt_scopeCount_bindVar {st : State} {room : Nat} (h : room < st.symbols.scopeCount)
    (id : ScopeId) (field : String) (ty : Ty) (vreg : VReg) (inner : Option ScopeId) :
    room < (st.bindVar id field ty vreg inner).symbols.scopeCount := by
  rw [State.bindVar, State.modify, SymbolTable.scopeCount_modifyScope]
  exact h

mutual

theorem Builds.furnished {nesting draws names proto name parent result} {st after : State}
    (h : Builds nesting draws names proto name parent st result after)
    (hstart : start ≤ st.symbols.scopeCount) (hst : st.symbols.Furnished start) :
    after.symbols.Furnished start := by
  match h with
  | .missing _ | .recursive _ _ => exact hst
  | .built (p := p) _ _ copied =>
    exact (copied.furnished hstart (scopeCount_lt_push st parent name)
      (hst.pushScope parent name)).order _ p
  | .stopped _ _ copied =>
    exact copied.furnished hstart (scopeCount_lt_push st parent name) (hst.pushScope parent name)
termination_by structural h

theorem Fills.furnished {nesting draws names typeScope id fields result} {st after : State}
    (h : Fills nesting draws names typeScope id fields st result after) (hid : start ≤ id)
    (hroom : id < st.symbols.scopeCount) (hst : st.symbols.Furnished start) :
    after.symbols.Furnished start := by
  match h with
  | .done | .unknown _ => exact hst
  | .plain _ others =>
    exact others.furnished hid (lt_scopeCount_bindVar hroom _ _ _ _ _) (hst.bind nofun)
  | .inner _ built copied =>
    have hmid := built.furnished (hid.trans hroom.le) hst
    have hroom' := hroom.trans_le (built.grows hroom).scopeCount_le
    obtain ⟨-, _, s, -, hs, hname, hparent, -⟩ := built.made
    refine copied.furnished hid (lt_scopeCount_bindVar hroom' _ _ _ _ _) (hmid.bind ?_)
    rintro inner ⟨rfl⟩
    exact ⟨s, hs, hname, hparent⟩
  | .stopped _ stopped => exact stopped.furnished (hid.trans hroom.le) hst
termination_by structural h

end

end Instance

namespace SymbolTable
open Instance (Builds)
variable {t after : SymbolTable} {proto parent id : ScopeId} {name : String}
  {vregs vregs' : VRegSupply}

theorem builds_of_instantiate (hparent : (t.scope? parent).isSome)
    (built : t.instantiate proto name parent vregs = (.ok id, after, vregs')) :
    ∃ draws,
      Builds t.nestingBound draws [] proto name parent ⟨t, vregs⟩ (.ok id) ⟨after, vregs'⟩ := by
  obtain ⟨draws, result, last, hbuilds⟩ := exists_builds_nestingBound t proto name parent vregs
  have hinstance := instantiate_of_builds (isSome_scope?.mp hparent) hbuilds le_rfl
  rw [built] at hinstance
  simp only [Prod.mk.injEq] at hinstance
  obtain ⟨rfl, rfl, rfl⟩ := hinstance
  exact ⟨draws, hbuilds⟩

/-- In the scopes of an instance all names are variables, and their fields are inside. -/
theorem furnished_instantiate (hparent : (t.scope? parent).isSome)
    (built : t.instantiate proto name parent vregs = (.ok id, after, vregs')) :
    after.Furnished t.scopeCount := by
  obtain ⟨draws, hbuilds⟩ := builds_of_instantiate hparent built
  exact hbuilds.furnished le_rfl t.furnished_scopeCount

end SymbolTable
end A64Lowering
