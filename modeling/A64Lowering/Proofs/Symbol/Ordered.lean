import Mathlib
import A64Lowering.Proofs.Symbol.Edits

/-! # Ordered names

* `Scope.Paired`: each ordered name has a type. `paired_of_evolves`: so it is after any edits.
* `Scope.Listed`, `Scope.Regular`: all ordered names are bound, and bound to variables.
* `SymbolTable.Prototype`: the scopes that an instance may copy. `Copying`: while it is built, the
  new scopes are regular and have fields of such types only. `Builds.copying`: the construction
  keeps that if all prototypes are regular.
* `ordered_names_bound`: if only regular prototypes have instances, all ordered names are bound
  after any edits. `unordered_fieldReplaced`: an instance of another prototype lacks a name. -/
namespace A64Lowering
set_option autoImplicit false

namespace Scope

/-- There are as many types as ordered names. -/
def Paired (s : Scope) : Prop := s.orderedTypes.length = s.orderedNames.length

theorem Paired.declare {s : Scope} (h : s.Paired) (name : String) (v : Variable) :
    (s.declare name v).Paired := by
  show (s.orderedTypes ++ [v.ty]).length = (s.orderedNames ++ [name]).length
  rw [List.length_append, List.length_append, h]
  rfl

/-- All ordered names are bound. -/
def Listed (s : Scope) : Prop := ∀ name ∈ s.orderedNames, (s.entries.get? name).isSome

/-- All ordered names are variables. -/
def Regular (s : Scope) : Prop := ∀ name ∈ s.orderedNames, (s.var? name).isSome

theorem Regular.listed {s : Scope} (h : s.Regular) : s.Listed := by
  intro name hname
  have hvar := h name hname
  rw [var?] at hvar
  cases hget : s.entries.get? name with
  | none => simp [hget] at hvar
  | some entry => rfl

theorem Listed.bind {s : Scope} (h : s.Listed) (name : String) (entry : Entry) :
    (s.bind name entry).Listed := by
  intro other hother
  rw [get?_bind]
  split
  · rfl
  · exact h other hother

theorem orderedNames_declare (s : Scope) (name : String) (v : Variable) :
    (s.declare name v).orderedNames = s.orderedNames ++ [name] := rfl

theorem Listed.declare {s : Scope} (h : s.Listed) (name : String) (v : Variable) :
    (s.declare name v).Listed := by
  intro other hother
  have hentries : (s.declare name v).entries = (s.bind name (.var v)).entries := rfl
  rw [hentries, get?_bind]
  split
  · rfl
  · next hne =>
    rw [orderedNames_declare, List.mem_append, List.mem_singleton] at hother
    exact h other (hother.resolve_right hne)

theorem Regular.bind {s : Scope} (h : s.Regular) (name : String) (v : Variable) :
    (s.bind name (.var v)).Regular := by
  intro other hother
  rw [var?_bind]
  split
  · rfl
  · exact h other hother

end Scope

namespace SymbolTable
variable {t u : SymbolTable} {proto : ScopeId}

/-! ## What an instance copies -/

/-- A scope that an instance of `proto` may copy: `proto` itself, and what lays out a struct type,
in whatever scope it is bound, that a field of such a scope has. -/
inductive Prototype (t : SymbolTable) (proto : ScopeId) : ScopeId → Prop where
  | self : Prototype t proto proto
  | field {p q id : ScopeId} {s : Scope} {field typeName structName : String} {v : Variable}
      {vreg : VReg} (copied : Prototype t proto p) (found : t.scope? p = some s)
      (bound : s.var? field = some v) (ty : v.ty = .struct typeName)
      (laidOut : t.bound? id typeName = some (.struct structName q vreg)) : Prototype t proto q

/-- Whatever struct type bears this name, an instance of `proto` may copy it. -/
def Leads (t : SymbolTable) (proto : ScopeId) (typeName : String) : Prop :=
  ∀ id structName q vreg, t.bound? id typeName = some (.struct structName q vreg) →
    t.Prototype proto q

/-- All prototypes of the instance are regular. -/
def Copyable (t : SymbolTable) (proto : ScopeId) : Prop :=
  ∀ p s, t.Prototype proto p → t.scope? p = some s → s.Regular

/-- `u` has, beyond the scopes of `t`, regular scopes whose fields lead to prototypes of `proto`. -/
structure Copying (t : SymbolTable) (proto : ScopeId) (u : SymbolTable) : Prop where
  grown : t.Grows u
  regular : ∀ id s, t.scopeCount ≤ id → u.scope? id = some s → s.Regular
  leads : ∀ id s field v typeName, t.scopeCount ≤ id → u.scope? id = some s →
    s.var? field = some v → v.ty = .struct typeName → t.Leads proto typeName

theorem copying_self (t : SymbolTable) (proto : ScopeId) : t.Copying proto t := by
  refine ⟨.refl t, ?_, ?_⟩
  · exact fun id s hid hs => absurd (scope?_lt hs) (Nat.not_lt.mpr hid)
  · exact fun id s _ _ _ hid hs => absurd (scope?_lt hs) (Nat.not_lt.mpr hid)

namespace Copying

theorem pushScope (h : t.Copying proto u) {parent : ScopeId} (hparent : parent < u.scopeCount)
    (name : String) : t.Copying proto (u.pushScope parent name).2 := by
  refine ⟨h.grown.pushScope hparent name, ?_, ?_⟩
  · intro id s hid hs
    rcases scope?_of_pushScope hs with ⟨-, rfl⟩ | hold
    · exact nofun
    · exact h.regular id s hid hold
  · intro id s field v typeName hid hs hv
    rcases scope?_of_pushScope hs with ⟨-, rfl⟩ | hold
    · cases hv
    · exact h.leads id s field v typeName hid hold hv

theorem bind (h : t.Copying proto u) {id : ScopeId} (hid : t.scopeCount ≤ id) (field : String)
    {v : Variable} (hv : ∀ typeName, v.ty = .struct typeName → t.Leads proto typeName) :
    t.Copying proto (u.modifyScope id (·.bind field (.var v))) := by
  refine ⟨h.grown.modifyScope hid fun _ => rfl, ?_, ?_⟩
  · intro other s hother hs
    rcases scope?_of_modifyScope hs with ⟨-, old, hold, rfl⟩ | hold
    · exact (h.regular other old hother hold).bind field v
    · exact h.regular other s hother hold
  · intro other s name w typeName hother hs hw hty
    rcases scope?_of_modifyScope hs with ⟨-, old, hold, rfl⟩ | hold
    · rw [Scope.var?_bind] at hw
      split at hw
      · cases hw
        exact hv typeName hty
      · exact h.leads other old name w typeName hother hold hw hty
    · exact h.leads other s name w typeName hother hold hw hty

/-- A scope may take over ordered names that are variables in it. -/
theorem order (h : t.Copying proto u) {id : ScopeId} (hid : t.scopeCount ≤ id)
    {p : Scope} (bound : ∀ s, u.scope? id = some s → ∀ name ∈ p.orderedNames, (s.var? name).isSome) :
    t.Copying proto (u.modifyScope id (·.takeOrder p)) := by
  refine ⟨h.grown.modifyScope hid fun _ => rfl, ?_, ?_⟩
  · intro other s hother hs
    rcases scope?_of_modifyScope hs with ⟨rfl, old, hold, rfl⟩ | hold
    · exact bound old hold
    · exact h.regular other s hother hold
  · intro other s name w typeName hother hs hw hty
    rcases scope?_of_modifyScope hs with ⟨-, old, hold, rfl⟩ | hold
    · exact h.leads other old name w typeName hother hold hw hty
    · exact h.leads other s name w typeName hother hold hw hty

/-- A prototype is regular and its fields lead to prototypes, also if it is in the making itself. -/
theorem prototype (h : t.Copying proto u) (copyable : t.Copyable proto) {p : ScopeId} {s : Scope}
    (hp : t.Prototype proto p) (hs : u.scope? p = some s) :
    s.Regular ∧ ∀ field v typeName, s.var? field = some v → v.ty = .struct typeName →
      t.Leads proto typeName := by
  rcases Nat.lt_or_ge p t.scopeCount with hold | hnew
  · rw [h.grown.scope?_eq hold] at hs
    refine ⟨copyable p s hp hs, ?_⟩
    intro field v typeName hv hty id structName q vreg hbound
    exact .field hp hs hv hty hbound
  · exact ⟨h.regular p s hnew hs, fun field v typeName => h.leads p s field v typeName hnew hs⟩

/-- The struct types that are found are those of `t`. -/
theorem prototype_of_lookup? (h : t.Copying proto u) (furnished : u.Furnished t.scopeCount)
    {scope q : ScopeId} {typeName structName : String} {vreg : VReg}
    (hleads : t.Leads proto typeName)
    (found : u.lookup? scope typeName = some (.struct structName q vreg)) :
    t.Prototype proto q := by
  obtain ⟨s, hs, hentry⟩ := List.exists_of_findSome?_eq_some found
  obtain ⟨other, hother⟩ := mem_walk hs
  -- the new scopes bind variables only, so it is an old one that binds the type
  rcases Nat.lt_or_ge other t.scopeCount with hold | hnew
  · rw [h.grown.scope?_eq hold] at hother
    exact hleads other structName q vreg (by rw [bound?, hother]; exact hentry)
  · obtain ⟨v, hv, -⟩ := furnished other s typeName _ hnew hother hentry
    cases hv

end Copying
end SymbolTable

namespace Instance
open SymbolTable (Copying Copyable)
variable {t : SymbolTable} {root : ScopeId}

mutual

/-- Regular prototypes have regular copies. -/
theorem Builds.copying (copyable : t.Copyable root)
    {nesting draws names proto name parent result} {st after : State}
    (h : Builds nesting draws names proto name parent st result after)
    (hproto : t.Prototype root proto) (hparent : parent < st.symbols.scopeCount)
    (furnished : st.symbols.Furnished t.scopeCount) (hst : t.Copying root st.symbols) :
    t.Copying root after.symbols := by
  have hstart : t.scopeCount ≤ st.symbols.scopeCount := hst.grown.scopeCount_le
  have hroom := scopeCount_lt_push st parent name
  match h with
  | .missing _ | .recursive _ _ => exact hst
  | .built (p := p) found _ copied =>
    obtain ⟨regular, leads⟩ := hst.prototype copyable hproto found
    have hmid := copied.copying copyable
      (fun field typeName hfield => (Scope.mem_fields.mp hfield).elim fun v hv =>
        leads field v typeName hv.1 hv.2)
      hstart hroom (furnished.pushScope parent name) (hst.pushScope hparent name)
    -- an ordered name of the prototype is a field of it, and all fields were copied
    refine hmid.order hstart ?_
    intro s hs field hfield
    obtain ⟨s', hs', hfilled⟩ := copied.filled rfl
      (show (st.push parent name).symbols.scope? st.symbols.scopeCount = _ by
        rw [State.push, SymbolTable.scope?_pushScope, if_pos rfl])
    cases hs'.symm.trans hs
    obtain ⟨v, hv⟩ := Option.isSome_iff_exists.mp (regular field hfield)
    exact hfilled.bound field
      (List.mem_map.mpr ⟨(field, v.ty), Scope.mem_fields.mpr ⟨v, hv, rfl⟩, rfl⟩)
  | .stopped found _ copied =>
    obtain ⟨-, leads⟩ := hst.prototype copyable hproto found
    exact copied.copying copyable
      (fun field typeName hfield => (Scope.mem_fields.mp hfield).elim fun v hv =>
        leads field v typeName hv.1 hv.2)
      hstart hroom (furnished.pushScope parent name) (hst.pushScope hparent name)
termination_by structural h

theorem Fills.copying (copyable : t.Copyable root)
    {nesting draws names typeScope id fields result} {st after : State}
    (h : Fills nesting draws names typeScope id fields st result after)
    (leads : ∀ field typeName, (field, .struct typeName) ∈ fields → t.Leads root typeName)
    (hid : t.scopeCount ≤ id) (hroom : id < st.symbols.scopeCount)
    (furnished : st.symbols.Furnished t.scopeCount) (hst : t.Copying root st.symbols) :
    t.Copying root after.symbols := by
  match h with
  | .done | .unknown _ => exact hst
  | .plain hty others =>
    refine others.copying copyable (fun field typeName hfield =>
      leads field typeName (List.mem_cons_of_mem _ hfield)) hid
      (lt_scopeCount_bindVar hroom _ _ _ _ _) (furnished.bind nofun) (hst.bind hid _ ?_)
    rintro typeName rfl
    cases hty
  | .inner (q := q) resolved built copied =>
    have hleads := leads _ _ List.mem_cons_self
    have hproto : t.Prototype root q := hst.prototype_of_lookup? furnished hleads resolved
    have hmid := built.copying copyable hproto hroom furnished hst
    have hfurnished := built.furnished (hid.trans hroom.le) furnished
    have hroom' := hroom.trans_le (built.grows hroom).scopeCount_le
    obtain ⟨-, _, s, -, hs, hname, hparent, -⟩ := built.made
    refine copied.copying copyable (fun field typeName hfield =>
      leads field typeName (List.mem_cons_of_mem _ hfield)) hid
      (lt_scopeCount_bindVar hroom' _ _ _ _ _) (hfurnished.bind ?_) (hmid.bind hid _ ?_)
    · rintro inner ⟨rfl⟩
      exact ⟨s, hs, hname, hparent⟩
    · rintro other ⟨rfl⟩
      exact hleads
  | .stopped resolved stopped =>
    have hleads := leads _ _ List.mem_cons_self
    exact stopped.copying copyable (hst.prototype_of_lookup? furnished hleads resolved) hroom
      furnished hst
termination_by structural h

end

end Instance

namespace SymbolTable
variable {t u : SymbolTable}

/-! ## What every scope is -/

/-- Every scope is such. -/
def Each (P : Scope → Prop) (t : SymbolTable) : Prop := ∀ id s, t.scope? id = some s → P s

namespace Each
variable {P : Scope → Prop}

theorem initial (h : P (.ofName none globalScopeName)) : initial.Each P := by
  intro id s hs
  obtain rfl : id = 0 := Nat.lt_one_iff.mp (scope?_lt hs)
  cases hs
  exact h

theorem pushScope (h : t.Each P) {parent : ScopeId} {name : String}
    (hnew : P (.ofName (some parent) name)) : (t.pushScope parent name).2.Each P := by
  intro id s hs
  rcases scope?_of_pushScope hs with ⟨-, rfl⟩ | hold
  · exact hnew
  · exact h id s hold

theorem modifyScope (h : t.Each P) (changed : ScopeId) {f : Scope → Scope}
    (hf : ∀ s, P s → P (f s)) : (t.modifyScope changed f).Each P := by
  intro id s hs
  rcases scope?_of_modifyScope hs with ⟨-, old, hold, rfl⟩ | hold
  · exact hf old (h id old hold)
  · exact h id s hold

theorem truncate (h : t.Each P) (count : Nat) : (t.truncate count).Each P := by
  intro id s hs
  refine h id s ?_
  rw [scope?, SymbolTable.truncate, List.getElem?_take] at hs
  split at hs
  · exact hs
  · cases hs

/-- A declaration changes one scope or nothing. -/
theorem declare (h : t.Each P) (hdeclare : ∀ s name v, P s → P (Scope.declare s name v))
    (scope : ScopeId) (name : String) (ty : Ty) (vregs : VRegSupply) :
    ((Edit.declare scope name ty vregs).apply t).Each P := by
  cases hscope : t.scope? scope with
  | none =>
    simp only [Edit.apply, SymbolTable.declare, hscope]
    exact h
  | some _ =>
    simp only [Edit.apply, SymbolTable.declare, hscope]
    exact h.modifyScope scope fun s => hdeclare s name _

theorem update (h : t.Each P) (hbind : ∀ s name entry, P s → P (Scope.bind s name entry))
    (scope : ScopeId) (name : String) (change : Variable → Variable) :
    ((Edit.update scope name change).apply t).Each P := by
  simp only [Edit.apply, updateVariable]
  split
  · exact h.modifyScope scope fun s => hbind s name _
  · exact h

theorem of_grows (h : t.Each P) (hu : t.Grows u)
    (new : ∀ id s, t.scopeCount ≤ id → u.scope? id = some s → P s) : u.Each P := by
  intro id s hs
  rcases Nat.lt_or_ge id t.scopeCount with hold | hnew
  · exact h id s (hu.scope?_eq hold ▸ hs)
  · exact new id s hnew hs

end Each
end SymbolTable

/-! ## Names and types come in pairs -/

namespace Instance

/-- However the construction of an instance ends, each ordered name has a type: the new scopes take
over the names and the types of the same prototype. -/
theorem paired_build (depth : Nat) : ∀ (names : List String) (proto : ScopeId) (name : String)
    (parent : ScopeId) (st : State), st.symbols.Each Scope.Paired →
      Promises (build depth names proto name parent) st
        (fun _ after => after.symbols.Each Scope.Paired)
        (fun _ after => after.symbols.Each Scope.Paired) := by
  induction depth with
  | zero =>
    intro names proto name parent st h
    exact promises_build (fun _ => h) (fun _ _ _ => h) (fun _ _ _ _ => h) nofun
  | succ depth ih =>
    intro names proto name parent st h
    refine promises_build (fun _ => h) (fun _ _ _ => h) nofun ?_
    intro p rest hp hmem hdepth
    cases hdepth
    have hpush : (st.push parent name).symbols.Each Scope.Paired := h.pushScope rfl
    refine (promises_forM (fun _ mid => mid.symbols.Each Scope.Paired) hpush ?_).mono ?_
      (fun _ _ h => h)
    · intro done field rest mid _ hmid
      refine promises_copyField_of_bind (fun u => u.symbols.Each Scope.Paired) hmid ?_
        (fun q => ih _ q field.1 _ mid.drawn hmid) (fun _ => hmid)
      exact fun u vreg fields hu => hu.modifyScope _ fun s hs => hs
    · exact fun _ after hafter => hafter.modifyScope _ fun _ _ => h proto p hp

end Instance

namespace SymbolTable
variable {t u : SymbolTable}

theorem Edit.paired_apply (e : Edit) (h : t.Each Scope.Paired) : (e.apply t).Each Scope.Paired := by
  cases e with
  | pushScope parent name => exact h.pushScope rfl
  | insert scope name entry => exact h.modifyScope scope fun s hs => hs
  | declare scope name ty vregs => exact h.declare (fun s name v hs => hs.declare name v) _ _ _ _
  | update scope name change => exact h.update (fun s name entry hs => hs) _ _ _
  | instantiate proto name parent vregs =>
    rcases instantiateWithin_of_promises
      (Instance.paired_build t.nestingBound [] proto name parent ⟨t, vregs⟩ h) with
      ⟨id, after, vregs', hrun, hafter⟩ | ⟨reason, st, hrun, hst⟩
    · rw [apply, SymbolTable.instantiate, hrun]
      exact hafter
    · rw [apply, SymbolTable.instantiate, hrun]
      exact hst.truncate _

theorem paired_of_evolves (h : t.Evolves u) (paired : t.Each Scope.Paired) :
    u.Each Scope.Paired := by
  induction h with
  | refl => exact paired
  | tail _ hstep ih =>
    obtain ⟨e, -, rfl⟩ := hstep
    exact e.paired_apply ih

/-! ## Edits -/

namespace Edit

/-- Only regular prototypes have instances. -/
def Orderly (t : SymbolTable) : Edit → Prop
  | instantiate proto name parent vregs =>
    ∀ id, (t.instantiate proto name parent vregs).1 = .ok id → t.Copyable proto
  | pushScope .. | insert .. | declare .. | update .. => True

theorem listed_apply {e : Edit} (inside : e.Inside t) (orderly : e.Orderly t)
    (h : t.Each Scope.Listed) : (e.apply t).Each Scope.Listed := by
  cases e with
  | pushScope parent name => exact h.pushScope nofun
  | insert scope name entry => exact h.modifyScope scope fun s hs => hs.bind name entry
  | declare scope name ty vregs => exact h.declare (fun s name v hs => hs.declare name v) _ _ _ _
  | update scope name change => exact h.update (fun s name entry hs => hs.bind name entry) _ _ _
  | instantiate proto name parent vregs =>
    -- old scopes stay as they are; there are new ones only if the instance was built
    obtain ⟨hgrows, hfailed⟩ := grows_instantiate (isSome_scope?.mp inside) proto name vregs
    rcases hrun : t.instantiate proto name parent vregs with ⟨fault | inst, after, vregs'⟩
    · have hsame : apply t (.instantiate proto name parent vregs) = t :=
        hfailed fault (by rw [hrun])
      rw [hsame]
      exact h
    · obtain ⟨_, hbuilds⟩ := builds_of_instantiate inside hrun
      have hcopying := hbuilds.copying (orderly inst (by rw [hrun])) .self
        (isSome_scope?.mp inside) t.furnished_scopeCount (copying_self t proto)
      refine h.of_grows hgrows ?_
      intro id s hid hs
      rw [apply, hrun] at hs
      exact (hcopying.regular id s hid hs).listed

end Edit

/-- Edits that only instantiate regular prototypes lead from `t` to `u`. -/
def EvolvesOrderly (t u : SymbolTable) : Prop :=
  Relation.ReflTransGen (fun t u => ∃ e : Edit, e.Inside t ∧ e.Orderly t ∧ e.apply t = u) t u

theorem EvolvesOrderly.refl (t : SymbolTable) : t.EvolvesOrderly t := Relation.ReflTransGen.refl

theorem EvolvesOrderly.edit (h : t.EvolvesOrderly u) (e : Edit) (inside : e.Inside u)
    (orderly : e.Orderly u) : t.EvolvesOrderly (e.apply u) :=
  .tail h ⟨e, inside, orderly, rfl⟩

theorem EvolvesOrderly.evolves (h : t.EvolvesOrderly u) : t.Evolves u :=
  Relation.ReflTransGen.mono (fun _ _ ⟨e, inside, _, heq⟩ => ⟨e, inside, heq⟩) _ _ h

theorem listed_of_evolvesOrderly (h : t.EvolvesOrderly u) (listed : t.Each Scope.Listed) :
    u.Each Scope.Listed := by
  induction h with
  | refl => exact listed
  | tail _ hstep ih =>
    obtain ⟨e, hinside, horderly, rfl⟩ := hstep
    exact Edit.listed_apply hinside horderly ih

theorem mem_orderedNames_of_fieldIndex? {id : ScopeId} {name : String} {k : Nat}
    (h : t.fieldIndex? id name = some k) :
    ∃ s, t.scope? id = some s ∧ name ∈ s.orderedNames := by
  obtain ⟨s, hs, hk⟩ := Option.bind_eq_some_iff.mp h
  refine ⟨s, hs, ?_⟩
  by_contra hnot
  rw [List.idxOf?_eq_none_iff.mpr hnot] at hk
  cases hk

/-- All ordered names are bound, after any edits that only instantiate regular prototypes. An
instance of any prototype takes over its ordered names and binds just those that are variables. -/
theorem ordered_names_bound (reached : initial.EvolvesOrderly t) :
    (∀ id s, t.scope? id = some s → s.orderedTypes.length = s.orderedNames.length ∧
      ∀ name ∈ s.orderedNames, (t.bound? id name).isSome) ∧
    (∀ id name k, t.fieldIndex? id name = some k → (t.bound? id name).isSome) ∧
    (∀ proto p name parent vregs inst after vregs', t.scope? proto = some p →
      (t.scope? parent).isSome →
      t.instantiate proto name parent vregs = (.ok inst, after, vregs') →
      ∃ s, after.scope? inst = some s ∧ s.orderedNames = p.orderedNames ∧
        s.orderedTypes = p.orderedTypes ∧
        ∀ field, (after.bound? inst field).isSome ↔ (p.var? field).isSome) := by
  have listed : t.Each Scope.Listed := listed_of_evolvesOrderly reached (Each.initial nofun)
  have paired : t.Each Scope.Paired := paired_of_evolves reached.evolves (Each.initial rfl)
  have hbound : ∀ id s, t.scope? id = some s → ∀ name ∈ s.orderedNames,
      (t.bound? id name).isSome := by
    intro id s hs name hname
    rw [bound?, hs]
    exact listed id s hs name hname
  refine ⟨?_, ?_, ?_⟩
  · exact fun id s hs => ⟨paired id s hs, hbound id s hs⟩
  · intro id name k hk
    obtain ⟨s, hs, hname⟩ := mem_orderedNames_of_fieldIndex? hk
    exact hbound id s hs name hname
  · intro proto p name parent vregs inst after vregs' hp hparent built
    obtain ⟨_, hbuilds⟩ := builds_of_instantiate hparent built
    obtain ⟨-, p', s, hp', hs, -, -, hnames, htypes, hvars, hothers⟩ := hbuilds.made
    cases hp.symm.trans hp'
    refine ⟨s, hs, hnames, htypes, fun field => ?_⟩
    rw [bound?, hs]
    refine ⟨fun hfield => ?_, fun hfield => ?_⟩
    · by_contra hnone
      rw [Option.bind_some, hothers field (Option.not_isSome_iff_eq_none.mp hnone)] at hfield
      cases hfield
    · obtain ⟨v, hv⟩ := Option.isSome_iff_exists.mp (hvars field hfield)
      obtain ⟨entry, hentry, -⟩ := Option.bind_eq_some_iff.mp hv
      rw [Option.bind_some, hentry]
      rfl

/-- Without a field that is a struct, an instance has one prototype. -/
theorem Prototype.eq_of_plain {proto p : ScopeId} (h : t.Prototype proto p)
    (plain : ∀ s field v, t.scope? proto = some s → s.var? field = some v →
      v.ty.structName? = none) : p = proto := by
  induction h with
  | self => rfl
  | field _ found bound ty _ ih =>
    subst ih
    have hplain := plain _ _ _ found bound
    rw [ty] at hplain
    cases hplain

/-- A struct type `P` with a field `x`, and a function whose parameter `a` is later a function. -/
def parameterReplaced : SymbolTable :=
  [.pushScope globalScope "P", .declare 1 "x" .int ⟨0⟩, .pushScope globalScope "f",
    .declare 2 "a" .int ⟨1⟩, .insert 2 "a" (.function .int globalScope)].foldl Edit.apply initial

theorem ordered_names_bound_parameterReplaced :
    initial.EvolvesOrderly (Edit.apply parameterReplaced (.instantiate 1 "p" 2 ⟨2⟩)) ∧
      (parameterReplaced.instantiate 1 "p" 2 ⟨2⟩).1 = .ok 3 ∧
      ((Edit.apply parameterReplaced (.instantiate 1 "p" 2 ⟨2⟩)).bound? 2 "a").isSome ∧
      ((Edit.apply parameterReplaced (.instantiate 1 "p" 2 ⟨2⟩)).bound? 3 "x").isSome := by
  have hscope : (parameterReplaced.scope? 1).map (fun s => (s.vars, s.orderedNames))
      = some ([("x", ⟨.int, none, ⟨0⟩, none⟩)], ["x"]) := by decide +kernel
  obtain ⟨p, hp, hvars⟩ := Option.map_eq_some_iff.mp hscope
  obtain ⟨hvars, hnames⟩ := Prod.mk.inj hvars
  have copyable : parameterReplaced.Copyable 1 := by
    intro q s hq hs
    obtain rfl := hq.eq_of_plain (by
      intro s field v hs hv
      cases hp.symm.trans hs
      have hmem := Scope.mem_vars.mpr hv
      rw [hvars, List.mem_singleton] at hmem
      cases hmem
      rfl)
    cases hp.symm.trans hs
    intro name hname
    rw [hnames, List.mem_singleton] at hname
    subst hname
    rw [← Scope.lookup_vars, hvars]
    rfl
  have reached : initial.EvolvesOrderly parameterReplaced :=
    (((((EvolvesOrderly.refl initial).edit (.pushScope globalScope "P") rfl trivial).edit
      (.declare 1 "x" .int ⟨0⟩) trivial trivial).edit
      (.pushScope globalScope "f") rfl trivial).edit (.declare 2 "a" .int ⟨1⟩) trivial trivial).edit
      (.insert 2 "a" (.function .int globalScope)) trivial trivial
  have built : (parameterReplaced.instantiate 1 "p" 2 ⟨2⟩).1 = .ok 3 := by decide +kernel
  have instantiated := reached.edit (.instantiate 1 "p" 2 ⟨2⟩)
    (isSome_scope?.mpr (by decide +kernel)) fun _ _ => copyable
  obtain ⟨-, hfound, -⟩ := ordered_names_bound instantiated
  exact ⟨instantiated, built, hfound 2 "a" 0 (by decide +kernel),
    hfound 3 "x" 0 (by decide +kernel)⟩

/-- A struct type `P` whose field `x` is later a function. -/
def fieldReplaced : SymbolTable :=
  [.pushScope globalScope "P", .declare 1 "x" .int ⟨0⟩,
    .insert 1 "x" (.function .int globalScope)].foldl Edit.apply initial

/-- An instance of `P` has an index for `x`, but does not bind it. -/
theorem unordered_fieldReplaced :
    ¬ ∀ t, initial.Evolves t →
      (∀ id s, t.scope? id = some s → s.orderedTypes.length = s.orderedNames.length ∧
        ∀ name ∈ s.orderedNames, (t.bound? id name).isSome) ∧
      ∀ id name k, t.fieldIndex? id name = some k → (t.bound? id name).isSome := by
  intro h
  have reached : initial.Evolves fieldReplaced :=
    (((Evolves.refl initial).edit (.pushScope globalScope "P") rfl).edit
      (.declare 1 "x" .int ⟨0⟩) trivial).edit (.insert 1 "x" (.function .int globalScope)) trivial
  have hbound := (h _ (reached.edit (.instantiate 1 "p" globalScope ⟨1⟩) rfl)).2 2 "x" 0
    (by decide +kernel)
  exact absurd hbound (by decide +kernel)

end SymbolTable
end A64Lowering
