import Mathlib
import A64Lowering.Proofs.Symbol.Furnishing
import A64Lowering.Proofs.Symbol.Root

/-! # Tables over time

* `SymbolTable.Edit`: the calls that change a table. `Edit.apply_cases`: each makes the table grow
  or changes a scope that stays where it is.
* `Evolves`: one edit after another. `Keeps`: all scopes stay, with their names and parents, as
  `keeps_of_evolves` says.
* `Seeks`: a search outwards, scope by scope, and how many scopes it visits. `lookup?_of_seeks` and
  `isGlobal_of_seeks`: two of the questions to a table are such searches.
* `scope_tree`: the scopes are a tree after any edits, nothing in it ever moves, and no search is
  longer than the number of its first scope. -/
namespace A64Lowering.SymbolTable
set_option autoImplicit false

variable {t u w : SymbolTable}

/-! ## Edits -/

/-- A call that changes a table. Declarations and instances draw their registers from a supply that
comes with the call. -/
inductive Edit where
  | pushScope (parent : ScopeId) (name : String)
  | insert (scope : ScopeId) (name : String) (entry : Entry)
  /-- A parameter of a function or a field of a struct. -/
  | declare (scope : ScopeId) (name : String) (ty : Ty) (vregs : VRegSupply)
  /-- A variable is changed in place, its type or its literal for instance. -/
  | update (scope : ScopeId) (name : String) (change : Variable → Variable)
  | instantiate (proto : ScopeId) (name : String) (parent : ScopeId) (vregs : VRegSupply)

namespace Edit

/-- The table after the call. -/
def apply (t : SymbolTable) : Edit → SymbolTable
  | pushScope parent name => (t.pushScope parent name).2
  | insert scope name entry => t.insert scope name entry
  | declare scope name ty vregs => ((t.declare scope name ty vregs).map (·.2.1)).getD t
  | update scope name change => t.updateVariable scope name change
  | instantiate proto name parent vregs => (t.instantiate proto name parent vregs).2.1

/-- A new scope comes inside one that exists. -/
def Inside (t : SymbolTable) : Edit → Prop
  | pushScope parent _ | instantiate _ _ parent _ => (t.scope? parent).isSome
  | insert .. | declare .. | update .. => True

/-- An edit makes the table grow, or it changes a scope that keeps its name and its parent. -/
theorem apply_cases {e : Edit} (inside : e.Inside t) :
    t.Grows (e.apply t) ∨ ∃ changed f,
      (∀ s : Scope, (f s).name = s.name ∧ (f s).parent = s.parent) ∧
      e.apply t = t.modifyScope changed f := by
  cases e with
  | pushScope parent name => exact .inl ((Grows.refl t).pushScope (isSome_scope?.mp inside) name)
  | insert scope name entry => exact .inr ⟨scope, (·.bind name entry), fun _ => ⟨rfl, rfl⟩, rfl⟩
  | declare scope name ty vregs =>
    cases hs : t.scope? scope with
    | none =>
      refine .inl ?_
      simp only [apply, SymbolTable.declare, hs]
      exact .refl t
    | some s =>
      refine .inr ⟨scope, (·.declare name ⟨ty, none, ⟨vregs.drawn⟩, none⟩), fun _ => ⟨rfl, rfl⟩, ?_⟩
      simp only [apply, SymbolTable.declare, hs]
      rfl
  | update scope name change =>
    simp only [apply, updateVariable]
    split
    · next v _ =>
      exact .inr ⟨scope, (·.bind name (.var (change v))), fun _ => ⟨rfl, rfl⟩, rfl⟩
    · exact .inl (.refl t)
  | instantiate proto name parent vregs =>
    exact .inl (grows_instantiate (isSome_scope?.mp inside) proto name vregs).1

theorem rooted_apply {e : Edit} (inside : e.Inside t) (h : t.Rooted) : (e.apply t).Rooted := by
  rcases apply_cases inside with hgrows | ⟨changed, f, hf, heq⟩
  · exact h.of_grows hgrows
  · rw [heq]
    exact h.modifyScope changed (fun s => (hf s).1) fun s => (hf s).2

end Edit

/-- Some edits, one after another, lead from `t` to `u`. -/
def Evolves (t u : SymbolTable) : Prop :=
  Relation.ReflTransGen (fun t u => ∃ e : Edit, e.Inside t ∧ e.apply t = u) t u

theorem Evolves.refl (t : SymbolTable) : t.Evolves t := Relation.ReflTransGen.refl

theorem Evolves.edit (h : t.Evolves u) (e : Edit) (inside : e.Inside u) : t.Evolves (e.apply u) :=
  .tail h ⟨e, inside, rfl⟩

theorem rooted_of_evolves (h : t.Evolves u) (rooted : t.Rooted) : u.Rooted := by
  induction h with
  | refl => exact rooted
  | tail _ hstep ih =>
    obtain ⟨e, hinside, rfl⟩ := hstep
    exact Edit.rooted_apply hinside ih

/-! ## Scopes stay -/

/-- All scopes of `t` are in `u`, with their names and parents. -/
def Keeps (t u : SymbolTable) : Prop :=
  ∀ id s, t.scope? id = some s →
    ∃ s', u.scope? id = some s' ∧ s'.name = s.name ∧ s'.parent = s.parent

theorem Keeps.trans (h : t.Keeps u) (h' : u.Keeps w) : t.Keeps w := by
  intro id s hs
  obtain ⟨s', hs', hname, hparent⟩ := h id s hs
  obtain ⟨s'', hs'', hname', hparent'⟩ := h' id s' hs'
  exact ⟨s'', hs'', hname'.trans hname, hparent'.trans hparent⟩

theorem Edit.keeps_apply {e : Edit} (inside : e.Inside t) : t.Keeps (e.apply t) := by
  intro id s hs
  rcases apply_cases inside with hgrows | ⟨changed, f, hf, heq⟩
  · exact ⟨s, hgrows.kept id s hs, rfl, rfl⟩
  · rw [heq, scope?_modifyScope, hs]
    split
    · exact ⟨f s, rfl, hf s⟩
    · exact ⟨s, rfl, rfl, rfl⟩

theorem keeps_of_evolves (h : t.Evolves u) : t.Keeps u := by
  induction h with
  | refl => exact fun id s hs => ⟨s, hs, rfl, rfl⟩
  | tail _ hstep ih =>
    obtain ⟨e, hinside, rfl⟩ := hstep
    exact ih.trans (Edit.keeps_apply hinside)

theorem Situated.of_keeps {name : String} {parent id : ScopeId} (h : t.Situated name parent id)
    (hu : t.Keeps u) : u.Situated name parent id := by
  obtain ⟨s, hs, hname, hparent⟩ := h
  obtain ⟨s', hs', hname', hparent'⟩ := hu id s hs
  exact ⟨s', hs', hname'.trans hname, hparent'.trans hparent⟩

/-! ## Searches -/

/-- From the scope `id` on, go outwards to the first scope that `stops`. This visits `visited`
scopes and ends at the scope found, if there is one. -/
inductive Seeks (t : SymbolTable) (stops : Scope → Bool) :
    (visited : Nat) → ScopeId → Option Scope → Prop where
  | missing {id : ScopeId} (absent : t.scope? id = none) : Seeks t stops 0 id none
  | found {id : ScopeId} {s : Scope} (here : t.scope? id = some s) (stop : stops s = true) :
      Seeks t stops 1 id (some s)
  | ended {id : ScopeId} {s : Scope} (here : t.scope? id = some s) (go : stops s = false)
      (outermost : s.parent = none) : Seeks t stops 1 id none
  | outward {visited : Nat} {id parent : ScopeId} {s : Scope} {result : Option Scope}
      (here : t.scope? id = some s) (go : stops s = false) (inside : s.parent = some parent)
      (out : Seeks t stops visited parent result) : Seeks t stops (visited + 1) id result

section Seeks
variable {stops : Scope → Bool} {visited : Nat} {id : ScopeId} {result : Option Scope}

/-- Each scope that is visited is older than the one before. -/
theorem Seeks.visited_le (nested : t.Nested) (h : t.Seeks stops visited id result) :
    visited ≤ id + 1 := by
  induction h with
  | missing _ => exact Nat.zero_le _
  | found _ _ | ended _ _ _ => exact Nat.le_add_left 1 _
  | outward here _ inside _ ih =>
    exact Nat.succ_le_succ (ih.trans (nested _ _ _ here inside))

theorem Seeks.eq_find? (nested : t.Nested) (h : t.Seeks stops visited id result) :
    result = (t.chain id).find? stops := by
  induction h with
  | @missing id absent =>
    unfold chain
    cases t.scopeCount with
    | zero => rfl
    | succ steps =>
      rw [walk, absent]
      rfl
  | found here stop => rw [chain_eq nested here, List.find?_cons_of_pos stop]
  | ended here go outermost =>
    rw [chain_eq nested here, List.find?_cons_of_neg (by simp [go]), outermost]
    rfl
  | outward here go inside _ ih =>
    rw [chain_eq nested here, List.find?_cons_of_neg (by simp [go]), inside]
    exact ih

theorem exists_seeks (nested : t.Nested) (stops : Scope → Bool) :
    ∀ id, ∃ visited result, t.Seeks stops visited id result := by
  intro id
  induction id using Nat.strong_induction_on with
  | _ id ih =>
    cases hs : t.scope? id with
    | none => exact ⟨0, none, .missing hs⟩
    | some s =>
      cases hstop : stops s with
      | true => exact ⟨1, some s, .found hs hstop⟩
      | false =>
        cases hparent : s.parent with
        | none => exact ⟨1, none, .ended hs hstop hparent⟩
        | some parent =>
          obtain ⟨visited, result, hout⟩ := ih parent (nested id s parent hs hparent)
          exact ⟨visited + 1, result, .outward hs hstop hparent hout⟩

theorem findSome?_eq_bind_find? {α β : Type} (f : α → Option β) (l : List α) :
    l.findSome? f = (l.find? fun a => (f a).isSome).bind f := by
  induction l with
  | nil => rfl
  | cons a l ih => cases ha : f a <;> simp [ha, ih]

theorem lookup?_of_seeks (nested : t.Nested) {name : String}
    (h : t.Seeks (·.entries.contains name) visited id result) :
    t.lookup? id name = result.bind (·.entries.get? name) := by
  rw [h.eq_find? nested, lookup?, findSome?_eq_bind_find?]
  rfl

theorem isGlobal_of_seeks (nested : t.Nested) (name : String)
    (h : t.Seeks (·.name == globalScopeName) visited id result) :
    t.isGlobal id name = result.any (·.entries.contains name) := by
  rw [h.eq_find? nested]
  rfl

end Seeks

/-! ## The tree of scopes -/

/-- After any edits the global scope is the root of a tree, in which each scope is inside an older
one. Each scope stays what and where it is, and so do the scopes of fields in an instance. A search
for a name or for the root visits no more scopes than the number of its first scope and one. -/
theorem scope_tree (reached : initial.Evolves t) :
    (∃ s, t.scope? globalScope = some s ∧ s.name = globalScopeName ∧ s.parent = none) ∧
    (∀ id s, t.scope? id = some s → id ≠ globalScope →
      ∃ parent, s.parent = some parent ∧ parent < id) ∧
    (∀ u, t.Evolves u → ∀ id s, t.scope? id = some s →
      ∃ s', u.scope? id = some s' ∧ s'.name = s.name ∧ s'.parent = s.parent) ∧
    (∀ proto name parent vregs inst after vregs', (t.scope? parent).isSome →
      t.instantiate proto name parent vregs = (.ok inst, after, vregs') →
      ∀ u, after.Evolves u → ∀ id s field v inner, t.scopeCount ≤ id → after.scope? id = some s →
        s.var? field = some v → v.fields = some inner → u.Situated field id inner) ∧
    (∀ id name,
      ((∃ visited found, t.Seeks (·.entries.contains name) visited id found) ∧
        ∀ visited found, t.Seeks (·.entries.contains name) visited id found →
          visited ≤ id + 1 ∧ t.lookup? id name = found.bind (·.entries.get? name)) ∧
      ((∃ visited found, t.Seeks (·.name == globalScopeName) visited id found) ∧
        ∀ visited found, t.Seeks (·.name == globalScopeName) visited id found →
          visited ≤ id + 1 ∧ t.isGlobal id name = found.any (·.entries.contains name))) := by
  have rooted : t.Rooted := rooted_of_evolves reached Rooted.initial
  have nested := rooted.nested
  refine ⟨rooted.root, rooted.inner, fun u hu => keeps_of_evolves hu, ?_, ?_⟩
  -- the scope of the fields is there when the instance is built, and stays
  · intro proto name parent vregs inst after vregs' hparent built u hu id s field v inner hid hs
      hv hinner
    obtain ⟨entry, hentry, hvar⟩ := Option.bind_eq_some_iff.mp hv
    obtain ⟨w, rfl, hw⟩ := furnished_instantiate hparent built id s field entry hid hs hentry
    cases hvar
    exact (hw inner hinner).of_keeps (keeps_of_evolves hu)
  · intro id name
    refine ⟨⟨exists_seeks nested _ id, ?_⟩, ⟨exists_seeks nested _ id, ?_⟩⟩
    · exact fun visited found h => ⟨h.visited_le nested, lookup?_of_seeks nested h⟩
    · exact fun visited found h => ⟨h.visited_le nested, isGlobal_of_seeks nested name h⟩

/-- A struct type `Point`, and a struct type `Line` with a field `from` that is a `Point`. -/
def lineDeclared : SymbolTable :=
  [.pushScope globalScope "Point", .declare 1 "x" .int ⟨0⟩,
    .insert globalScope "Point" (.struct "Point" 1 ⟨1⟩), .pushScope globalScope "Line",
    .declare 2 "from" (.struct "Point") ⟨2⟩].foldl Edit.apply initial

def lineBuilt : SymbolTable := (lineDeclared.instantiate 2 "l" globalScope ⟨3⟩).2.1

/-- An instance that fails after a scope was opened, and another scope that takes its number. -/
def lineLater : SymbolTable :=
  [.declare 2 "to" (.struct "Missing") ⟨5⟩, .instantiate 2 "m" globalScope ⟨6⟩,
    .update 3 "from" fun v => { v with value := some "0" }, .pushScope 4 "block"].foldl Edit.apply
    lineBuilt

theorem scope_tree_lineDeclared :
    initial.Evolves lineDeclared ∧ (lineDeclared.scope? globalScope).isSome = true ∧
      lineDeclared.instantiate 2 "l" globalScope ⟨3⟩ = (.ok 3, lineBuilt, ⟨5⟩) ∧
      lineBuilt.Evolves lineLater ∧ lineLater.scopeCount = 6 ∧ lineLater.Situated "from" 3 4 ∧
      ∀ visited found, lineDeclared.Seeks (·.entries.contains "Point") visited 2 found →
        visited ≤ 3 ∧ lineDeclared.lookup? 2 "Point" = found.bind (·.entries.get? "Point") := by
  have reached : initial.Evolves lineDeclared :=
    (((((Evolves.refl initial).edit (.pushScope globalScope "Point") rfl).edit
      (.declare 1 "x" .int ⟨0⟩) trivial).edit (.insert globalScope "Point" (.struct "Point" 1 ⟨1⟩))
      trivial).edit (.pushScope globalScope "Line") rfl).edit
      (.declare 2 "from" (.struct "Point") ⟨2⟩) trivial
  have built : lineDeclared.instantiate 2 "l" globalScope ⟨3⟩ = (.ok 3, lineBuilt, ⟨5⟩) := by
    refine Prod.ext ?_ (Prod.ext rfl ?_)
    · decide +kernel
    · decide +kernel
  have later : lineBuilt.Evolves lineLater :=
    ((((Evolves.refl lineBuilt).edit (.declare 2 "to" (.struct "Missing") ⟨5⟩) trivial).edit
      (.instantiate 2 "m" globalScope ⟨6⟩) (isSome_scope?.mpr (by decide +kernel))).edit
      (.update 3 "from" fun v => { v with value := some "0" }) trivial).edit (.pushScope 4 "block")
      (isSome_scope?.mpr (by decide +kernel))
  obtain ⟨-, -, -, recorded, searches⟩ := scope_tree reached
  refine ⟨reached, rfl, built, later, by decide +kernel, ?_, (searches 2 "Point").1.2⟩
  have hvar : (lineBuilt.scope? 3).bind (·.var? "from")
      = some ⟨.struct "Point", none, ⟨3⟩, some 4⟩ := by decide +kernel
  obtain ⟨s, hs, hv⟩ := Option.bind_eq_some_iff.mp hvar
  exact recorded 2 "l" globalScope ⟨3⟩ 3 lineBuilt ⟨5⟩ rfl built lineLater later 3 s "from" _ 4
    (by decide +kernel) hs hv rfl

end A64Lowering.SymbolTable
