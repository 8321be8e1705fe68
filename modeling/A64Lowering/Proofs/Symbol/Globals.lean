import Mathlib
import A64Lowering.Proofs.Symbol.Edits

/-! # How the global variables come about

* `Datum`: what of a variable does not depend on when it was inserted, its type and its literal.
* `Edit.binds?`: the global name that a call binds, and the datum that it binds it to. There is no
  datum if a function or a struct type takes the name.
* `History`: the bindings that led to a table, among any other edits. `exists_history`: every table
  has one.
* `globalDatum?_of_history`: the last binding of a name counts, and nothing else of the history.
* `latest_eq_of_perm`: if no name is bound twice, the order of the bindings does not count. -/
namespace A64Lowering
set_option autoImplicit false

structure Datum where
  ty : Ty
  value : Option String
  deriving DecidableEq

def Variable.datum (v : Variable) : Datum := ⟨v.ty, v.value⟩

def Entry.datum? (entry : Entry) : Option Datum := entry.var?.map (·.datum)

/-! ## The last binding of a name -/

/-- The datum that `name` has after some bindings. -/
def latest (bindings : List (String × Option Datum)) (name : String) : Option Datum :=
  (bindings.reverse.lookup name).join

/-- The bindings to variables. -/
def variableBindings (bindings : List (String × Option Datum)) : List (String × Datum) :=
  bindings.filterMap fun (name, datum) => datum.map (name, ·)

section Latest
variable {bindings others : List (String × Option Datum)} {name : String}

theorem latest_concat (bindings : List (String × Option Datum)) (binding : String × Option Datum)
    (name : String) :
    latest (bindings ++ [binding]) name
      = if name = binding.1 then binding.2 else latest bindings name := by
  obtain ⟨other, datum⟩ := binding
  rw [latest, List.reverse_concat, List.lookup_cons]
  by_cases h : name = other
  · simp [h]
  · simp [h, latest, beq_eq_false_iff_ne.mpr h]

theorem mem_variableBindings {datum : Datum} :
    (name, datum) ∈ variableBindings bindings ↔ (name, some datum) ∈ bindings := by
  simp only [variableBindings, List.mem_filterMap, Option.map_eq_some_iff, Prod.exists,
    Prod.mk.injEq]
  constructor
  · rintro ⟨_, _, hmem, _, rfl, rfl, rfl⟩
    exact hmem
  · exact fun hmem => ⟨name, some datum, hmem, datum, rfl, rfl, rfl⟩

theorem latest_eq_some_iff (hdistinct : (bindings.map Prod.fst).Nodup) {datum : Datum} :
    latest bindings name = some datum ↔ (name, datum) ∈ variableBindings bindings := by
  rw [mem_variableBindings]
  induction bindings using List.reverseRecOn with
  | nil => simp [latest]
  | append_singleton front binding ih =>
    rw [List.map_append, List.nodup_append] at hdistinct
    obtain ⟨hfront, -, hapart⟩ := hdistinct
    rw [latest_concat, List.mem_append, List.mem_singleton, ← ih hfront]
    split
    · next hname =>
      subst hname
      -- an earlier binding would bind the name twice
      have hnone : latest front binding.1 ≠ some datum := fun hlatest =>
        hapart _ (List.mem_map_of_mem ((ih hfront).mp hlatest)) binding.1 (by simp) rfl
      obtain ⟨other, datum'⟩ := binding
      simp [hnone, eq_comm]
    · next hname =>
      have hne : (name, some datum) ≠ binding := fun heq => hname (by rw [← heq])
      simp [hne]

/-- Of names that are bound once each, the variables count, in whatever order. -/
theorem latest_eq_of_perm (hdistinct : (bindings.map Prod.fst).Nodup)
    (hdistinct' : (others.map Prod.fst).Nodup)
    (h : (variableBindings bindings).Perm (variableBindings others)) :
    latest bindings = latest others := by
  funext name
  apply Option.ext
  intro datum
  rw [latest_eq_some_iff hdistinct, latest_eq_some_iff hdistinct', h.mem_iff]

end Latest

/-! ## Histories -/

namespace SymbolTable
variable {t : SymbolTable} {bindings : List (String × Option Datum)}

def globalDatum? (t : SymbolTable) (name : String) : Option Datum :=
  (t.bound? globalScope name).bind Entry.datum?

def Edit.binds? (t : SymbolTable) : Edit → Option (String × Option Datum)
  | insert scope name entry => if scope = globalScope then some (name, entry.datum?) else none
  | declare scope name ty _ => if scope = globalScope then some (name, some ⟨ty, none⟩) else none
  | update scope name change =>
    if scope = globalScope then
      ((t.bound? scope name).bind Entry.var?).map fun v => (name, some (change v).datum)
    else none
  | pushScope .. | instantiate .. => none

/-- Some edits made the table out of the initial one and bound global names like this, in order. -/
inductive History : List (String × Option Datum) → SymbolTable → Prop where
  | initial : History [] initial
  | edit {bindings : List (String × Option Datum)} {t : SymbolTable} (h : History bindings t)
      (e : Edit) (inside : e.Inside t) : History (bindings ++ (e.binds? t).toList) (e.apply t)

theorem exists_history (reached : initial.Evolves t) : ∃ bindings, History bindings t := by
  induction reached with
  | refl => exact ⟨[], .initial⟩
  | tail _ hstep ih =>
    obtain ⟨bindings, hbindings⟩ := ih
    obtain ⟨e, hinside, rfl⟩ := hstep
    exact ⟨_, hbindings.edit e hinside⟩

theorem evolves_of_history (h : History bindings t) : initial.Evolves t := by
  induction h with
  | initial => exact .refl _
  | edit _ e inside ih => exact ih.edit e inside

theorem globalDatum?_modifyScope (hglobal : (t.scope? globalScope).isSome) {scope : ScopeId}
    {f : Scope → Scope} {other : String} {entry : Entry}
    (hf : ∀ s, (f s).entries = s.entries.insert other entry) (name : String) :
    (t.modifyScope scope f).globalDatum? name
      = if scope = globalScope ∧ name = other then entry.datum? else t.globalDatum? name := by
  obtain ⟨s, hs⟩ := Option.isSome_iff_exists.mp hglobal
  rw [globalDatum?, globalDatum?, bound?, bound?, scope?_modifyScope, hs]
  by_cases hscope : scope = globalScope
  · by_cases hname : name = other <;> simp [hscope, hname, hf]
  · simp [hscope]

theorem globalDatum?_congr {u : SymbolTable} (h : u.scope? globalScope = t.scope? globalScope)
    (name : String) : u.globalDatum? name = t.globalDatum? name := by
  rw [globalDatum?, bound?, h]
  rfl

/-- A call changes the datum of the name that it binds, and no other. -/
theorem globalDatum?_apply {e : Edit} (hglobal : (t.scope? globalScope).isSome)
    (inside : e.Inside t) (name : String) :
    (e.apply t).globalDatum? name = match e.binds? t with
      | some binding => if name = binding.1 then binding.2 else t.globalDatum? name
      | none => t.globalDatum? name := by
  cases e with
  | pushScope parent child =>
    refine globalDatum?_congr ?_ name
    rw [Edit.apply, scope?_pushScope, if_neg (isSome_scope?.mp hglobal).ne]
  | insert scope other entry =>
    simp only [Edit.apply, SymbolTable.insert, Edit.binds?]
    rw [globalDatum?_modifyScope hglobal fun _ => rfl]
    by_cases hscope : scope = globalScope <;> simp [hscope]
  | declare scope other ty vregs =>
    cases hs : t.scope? scope with
    | none =>
      have hscope : scope ≠ globalScope := by
        rintro rfl
        rw [hs] at hglobal
        cases hglobal
      simp [Edit.apply, SymbolTable.declare, hs, Edit.binds?, hscope]
    | some s =>
      simp only [Edit.apply, SymbolTable.declare, hs, Option.map_some, Option.getD_some,
        Edit.binds?]
      rw [globalDatum?_modifyScope hglobal fun _ => rfl]
      by_cases hscope : scope = globalScope <;>
        simp [hscope, Entry.datum?, Entry.var?, Variable.datum]
  | update scope other change =>
    simp only [Edit.apply, updateVariable, Edit.binds?]
    cases hbound : t.bound? scope other with
    | none => by_cases hscope : scope = globalScope <;> simp [hscope]
    | some entry =>
      cases entry with
      | var v =>
        simp only [SymbolTable.insert, Option.bind_some, Entry.var?, Option.map_some]
        rw [globalDatum?_modifyScope hglobal fun _ => rfl]
        by_cases hscope : scope = globalScope <;> simp [hscope, Entry.datum?, Entry.var?]
      | function | struct => by_cases hscope : scope = globalScope <;> simp [hscope, Entry.var?]
  | instantiate proto child parent vregs =>
    refine globalDatum?_congr ?_ name
    exact (grows_instantiate (isSome_scope?.mp inside) proto child vregs).1.scope?_eq
      (isSome_scope?.mp hglobal)

theorem globalDatum?_of_history (h : History bindings t) (name : String) :
    t.globalDatum? name = latest bindings name := by
  induction h with
  | initial => rfl
  | @edit bindings t hbefore e inside ih =>
    obtain ⟨root, hroot, -⟩ := (rooted_of_evolves (evolves_of_history hbefore) .initial).root
    -- the last binding so far is this call's, if it makes one
    rw [globalDatum?_apply (by rw [hroot]; rfl) inside]
    cases hbinds : e.binds? t with
    | none =>
      rw [Option.toList_none, List.append_nil]
      exact ih
    | some binding =>
      rw [Option.toList_some, latest_concat, ← ih]

end SymbolTable
end A64Lowering
