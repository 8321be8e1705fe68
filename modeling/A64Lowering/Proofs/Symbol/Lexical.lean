import Mathlib
import A64Lowering.Proofs.Symbol.Chain
import A64Lowering.Proofs.Symbol.Sound

/-! # Lexical scoping

* `SymbolTable.Outward`: which scopes one passes on the way from a scope to one around it.
* `Visible`: no scope that is passed binds the name.
* `lookup?_eq`: a lookup takes the binding of the scope itself, or else that of the parent.
  `lookup?_eq_some_iff` and `lookup?_eq_none_iff` say by ways what it finds.
* `lookup?_insert_of_visible`, `lookup?_insert_of_not_visible`: which lookups see a new binding.
* `lexical_scoping`: all of that, and that bindings of different names or scopes can be made in
  either order. -/
namespace A64Lowering

set_option autoImplicit false

theorem NameMap.insert_comm {α : Type} (m : NameMap α) {name other : String} (h : name ≠ other)
    (a b : α) : (m.insert name a).insert other b = (m.insert other b).insert name a := by
  refine NameMap.ext_get? fun key => ?_
  simp only [NameMap.get?_insert]
  by_cases hname : key = name
  · subst hname
    simp [h]
  · simp [hname]

namespace SymbolTable

variable {t : SymbolTable} {id outer scope : ScopeId} {closer : List ScopeId} {name other : String}
  {entry : Entry}

theorem ext_scope? {u : SymbolTable} (h : ∀ id, t.scope? id = u.scope? id) : t = u := by
  obtain ⟨scopes⟩ := t
  obtain ⟨scopes'⟩ := u
  exact congrArg SymbolTable.mk (List.ext_getElem? h)

theorem bound?_of_scope? {s : Scope} (hs : t.scope? id = some s) (name : String) :
    t.bound? id name = s.entries.get? name := by
  rw [bound?, hs]
  rfl

theorem bound?_insert (t : SymbolTable) (scope : ScopeId) (name : String) (entry : Entry)
    (id : ScopeId) (other : String) :
    (t.insert scope name entry).bound? id other =
      if (scope = id ∧ other = name) ∧ (t.scope? id).isSome then some entry else t.bound? id other := by
  unfold bound? insert
  rw [scope?_modifyScope]
  by_cases hid : scope = id
  · subst hid
    cases hs : t.scope? scope with
    | none => simp
    | some s => simp [Scope.bind]
  · simp [hid]

/-! ## Ways out -/

/-- From the scope `id` outwards, past the scopes `closer`, one comes to the scope `outer`. -/
inductive Outward (t : SymbolTable) (outer : ScopeId) : (closer : List ScopeId) → ScopeId → Prop where
  | here (found : (t.scope? outer).isSome) : Outward t outer [] outer
  | past {closer : List ScopeId} {id parent : ScopeId} {s : Scope} (found : t.scope? id = some s)
      (inside : s.parent = some parent) (out : Outward t outer closer parent) :
      Outward t outer (id :: closer) id

theorem Outward.le (nested : t.Nested) (h : t.Outward outer closer id) : outer ≤ id := by
  induction h with
  | here _ => exact le_rfl
  | past found inside _ ih => exact ih.trans (nested _ _ _ found inside).le

theorem Outward.lt_of_mem (nested : t.Nested) (h : t.Outward outer closer id) {c : ScopeId}
    (hc : c ∈ closer) : outer < c := by
  induction h with
  | here _ => exact absurd hc List.not_mem_nil
  | past found inside out ih =>
    rcases List.mem_cons.mp hc with rfl | hc
    · exact (out.le nested).trans_lt (nested _ _ _ found inside)
    · exact ih hc

theorem Outward.found (h : t.Outward outer closer id) : (t.scope? outer).isSome := by
  induction h with
  | here found => exact found
  | past _ _ _ ih => exact ih

/-- A change of the bindings leaves all ways. -/
theorem Outward.insert (h : t.Outward outer closer id) (scope : ScopeId) (name : String)
    (entry : Entry) : (t.insert scope name entry).Outward outer closer id := by
  induction h with
  | here found =>
    refine .here ?_
    rw [isSome_scope?] at found ⊢
    rwa [scopeCount_insert]
  | @past _ id parent s found inside _ ih =>
    by_cases hid : scope = id
    · refine .past (s := s.bind name entry) ?_ inside ih
      rw [SymbolTable.insert, scope?_modifyScope, if_pos hid, found]
      rfl
    · refine .past ?_ inside ih
      rw [SymbolTable.insert, scope?_modifyScope, if_neg hid]
      exact found

theorem nested_insert (nested : t.Nested) (scope : ScopeId) (name : String) (entry : Entry) :
    (t.insert scope name entry).Nested := by
  intro id s parent hs hparent
  rcases scope?_of_modifyScope hs with ⟨-, old, hold, rfl⟩ | hold
  · exact nested id old parent hold hparent
  · exact nested id s parent hold hparent

/-- `outer` is on the way out of `id`, and no scope closer to `id` binds `name`. -/
def Visible (t : SymbolTable) (name : String) (outer id : ScopeId) : Prop :=
  ∃ closer, t.Outward outer closer id ∧ ∀ c ∈ closer, t.bound? c name = none

theorem Visible.past {parent : ScopeId} {s : Scope} (h : t.Visible name outer parent)
    (found : t.scope? id = some s) (inside : s.parent = some parent)
    (unbound : s.entries.get? name = none) : t.Visible name outer id := by
  obtain ⟨closer, hout, hclear⟩ := h
  refine ⟨id :: closer, .past found inside hout, List.forall_mem_cons.mpr ⟨?_, hclear⟩⟩
  rw [bound?_of_scope? found]
  exact unbound

/-! ## What a lookup finds -/

theorem lookup?_of_missing (hs : t.scope? id = none) (name : String) :
    t.lookup? id name = none := by
  unfold lookup? chain
  cases t.scopeCount with
  | zero => rfl
  | succ steps =>
    rw [walk, hs]
    rfl

theorem lookup?_eq (nested : t.Nested) {s : Scope} (hs : t.scope? id = some s) (name : String) :
    t.lookup? id name
      = (s.entries.get? name).or (s.parent.bind fun parent => t.lookup? parent name) := by
  rw [lookup?, chain_eq nested hs, List.findSome?_cons]
  cases s.entries.get? name with
  | some entry => rfl
  | none => cases s.parent <;> rfl

theorem lookup?_of_visible (nested : t.Nested) (h : t.Visible name outer id)
    (bound : t.bound? outer name = some entry) : t.lookup? id name = some entry := by
  obtain ⟨closer, hout, hclear⟩ := h
  induction hout with
  | here found =>
    obtain ⟨s, hs⟩ := Option.isSome_iff_exists.mp found
    rw [bound?_of_scope? hs] at bound
    rw [lookup?_eq nested hs, bound]
    rfl
  | past found inside _ ih =>
    obtain ⟨hunbound, hrest⟩ := List.forall_mem_cons.mp hclear
    rw [bound?_of_scope? found] at hunbound
    rw [lookup?_eq nested found, hunbound, inside]
    exact ih hrest

theorem visible_of_lookup? (nested : t.Nested) :
    ∀ (id : ScopeId), t.lookup? id name = some entry →
      ∃ outer, t.Visible name outer id ∧ t.bound? outer name = some entry := by
  intro id
  induction id using Nat.strong_induction_on with
  | _ id ih =>
    intro h
    cases hs : t.scope? id with
    | none =>
      rw [lookup?_of_missing hs] at h
      cases h
    | some s =>
      rw [lookup?_eq nested hs] at h
      cases hget : s.entries.get? name with
      | some found =>
        rw [hget] at h
        cases h
        refine ⟨id, ⟨[], .here (hs ▸ rfl), List.forall_mem_nil _⟩, ?_⟩
        rw [bound?_of_scope? hs, hget]
      | none =>
        rw [hget, Option.none_or] at h
        obtain ⟨parent, hparent, hlookup⟩ := Option.bind_eq_some_iff.mp h
        obtain ⟨outer, hvisible, hbound⟩ := ih parent (nested id s parent hs hparent) hlookup
        exact ⟨outer, hvisible.past hs hparent hget, hbound⟩

/-- A lookup finds the binding of the nearest scope on the way out that binds the name. -/
theorem lookup?_eq_some_iff (nested : t.Nested) :
    t.lookup? id name = some entry ↔
      ∃ outer, t.Visible name outer id ∧ t.bound? outer name = some entry := by
  refine ⟨visible_of_lookup? nested id, ?_⟩
  rintro ⟨outer, hvisible, hbound⟩
  exact lookup?_of_visible nested hvisible hbound

theorem isSome_lookup?_of_outward (nested : t.Nested) (h : t.Outward outer closer id)
    (bound : (t.bound? outer name).isSome) : (t.lookup? id name).isSome := by
  induction h with
  | here found =>
    obtain ⟨s, hs⟩ := Option.isSome_iff_exists.mp found
    rw [bound?_of_scope? hs] at bound
    rw [lookup?_eq nested hs, Option.isSome_or, bound]
    rfl
  | past found inside _ ih =>
    rw [lookup?_eq nested found, Option.isSome_or, inside, Option.bind_some, ih, Bool.or_true]

/-- A lookup finds nothing if no scope on the way out binds the name. -/
theorem lookup?_eq_none_iff (nested : t.Nested) :
    t.lookup? id name = none ↔
      ∀ outer closer, t.Outward outer closer id → t.bound? outer name = none := by
  constructor
  · intro hnone outer closer hout
    by_contra hbound
    have hsome := isSome_lookup?_of_outward nested hout (Option.isSome_iff_ne_none.mpr hbound)
    rw [hnone] at hsome
    cases hsome
  · intro hfree
    refine Option.eq_none_iff_forall_ne_some.mpr fun entry hsome => ?_
    obtain ⟨outer, ⟨closer, hout, -⟩, hbound⟩ := visible_of_lookup? nested id hsome
    rw [hfree outer closer hout] at hbound
    cases hbound

/-! ## Which lookups see a new binding -/

theorem lookup?_insert_of_visible (nested : t.Nested) (h : t.Visible name scope id)
    (entry : Entry) :
    (t.insert scope name entry).lookup? id name = some entry := by
  obtain ⟨closer, hout, hclear⟩ := h
  have hvisible : (t.insert scope name entry).Visible name scope id := by
    refine ⟨closer, hout.insert scope name entry, ?_⟩
    intro c hc
    have hne : scope ≠ c := (hout.lt_of_mem nested hc).ne
    rw [bound?_insert, if_neg fun h => hne h.1.1]
    exact hclear c hc
  refine lookup?_of_visible (nested_insert nested scope name entry) hvisible ?_
  rw [bound?_insert, if_pos ⟨⟨rfl, rfl⟩, hout.found⟩]

theorem lookup?_insert_of_not_visible (nested : t.Nested) (entry : Entry) :
    ∀ (id : ScopeId), ¬ (other = name ∧ t.Visible name scope id) →
      (t.insert scope name entry).lookup? id other = t.lookup? id other := by
  intro id
  induction id using Nat.strong_induction_on with
  | _ id ih =>
    intro hidden
    have nested' := nested_insert nested scope name entry
    have hscope? : (t.insert scope name entry).scope? id
        = if scope = id then (t.scope? id).map (·.bind name entry) else t.scope? id :=
      scope?_modifyScope t scope _ id
    cases hs : t.scope? id with
    | none =>
      rw [lookup?_of_missing hs, lookup?_of_missing]
      simp [hscope?, hs]
    | some s =>
      obtain ⟨s', hs', hparent', hget'⟩ : ∃ s', (t.insert scope name entry).scope? id = some s' ∧
          s'.parent = s.parent ∧ s'.entries.get? other = s.entries.get? other := by
        rw [hscope?, hs]
        split
        · next hid =>
          subst hid
          have hother : other ≠ name := fun h =>
            hidden ⟨h, [], .here (hs ▸ rfl), List.forall_mem_nil _⟩
          exact ⟨_, rfl, rfl, by simp [Scope.bind, hother]⟩
        · exact ⟨s, rfl, rfl, rfl⟩
      rw [lookup?_eq nested hs, lookup?_eq nested' hs', hparent', hget']
      cases hget : s.entries.get? other with
      | some found => rfl
      | none =>
        cases hparent : s.parent with
        | none => rfl
        | some parent =>
          refine ih parent (nested id s parent hs hparent) ?_
          rintro ⟨rfl, hvisible⟩
          exact hidden ⟨rfl, hvisible.past hs hparent hget⟩

/-- Bindings of different names or in different scopes can be made in either order. -/
theorem insert_comm {scope' : ScopeId} {name' : String} (h : (scope, name) ≠ (scope', name'))
    (entry entry' : Entry) :
    (t.insert scope name entry).insert scope' name' entry'
      = (t.insert scope' name' entry').insert scope name entry := by
  refine ext_scope? fun id => ?_
  simp only [insert, scope?_modifyScope]
  by_cases hid : scope = id
  · by_cases hid' : scope' = id
    · have hname : name ≠ name' := fun same => h (Prod.ext (hid.trans hid'.symm) same)
      cases t.scope? id with
      | none => simp [hid, hid']
      | some s => simp [hid, hid', Scope.bind, NameMap.insert_comm s.entries hname]
    · simp [hid, hid']
  · simp [hid]

/-! ## Lexical scoping -/

/-- A name means what the nearest scope on the way out binds it to. A new binding is seen from
where no scope closer by binds the name, and it changes nothing else. Bindings of different names
or in different scopes do not depend on each other. -/
theorem lexical_scoping (nested : t.Nested) :
    (∀ id name entry, t.lookup? id name = some entry ↔
      ∃ outer closer, t.Outward outer closer id ∧ (∀ c ∈ closer, t.bound? c name = none) ∧
        t.bound? outer name = some entry) ∧
    (∀ id name, t.lookup? id name = none ↔
      ∀ outer closer, t.Outward outer closer id → t.bound? outer name = none) ∧
    (∀ scope name entry id other,
      (other = name ∧ t.Visible name scope id →
        (t.insert scope name entry).lookup? id other = some entry) ∧
      (¬ (other = name ∧ t.Visible name scope id) →
        (t.insert scope name entry).lookup? id other = t.lookup? id other)) ∧
    (∀ scope name entry scope' name' entry', (scope, name) ≠ (scope', name') →
      (t.insert scope name entry).bound? scope' name' = t.bound? scope' name' ∧
      (t.insert scope name entry).insert scope' name' entry'
        = (t.insert scope' name' entry').insert scope name entry) := by
  refine ⟨?_, fun id name => lookup?_eq_none_iff nested, ?_, ?_⟩
  · intro id name entry
    rw [lookup?_eq_some_iff nested]
    constructor
    · rintro ⟨outer, ⟨closer, hout, hclear⟩, hbound⟩
      exact ⟨outer, closer, hout, hclear, hbound⟩
    · rintro ⟨outer, closer, hout, hclear, hbound⟩
      exact ⟨outer, ⟨closer, hout, hclear⟩, hbound⟩
  · intro scope name entry id other
    refine ⟨?_, lookup?_insert_of_not_visible nested entry id⟩
    rintro ⟨rfl, hvisible⟩
    exact lookup?_insert_of_visible nested hvisible entry
  · intro scope name entry scope' name' entry' hne
    refine ⟨?_, insert_comm hne entry entry'⟩
    rw [bound?_insert, if_neg]
    rintro ⟨⟨rfl, rfl⟩, -⟩
    exact hne rfl

/-- A global `x`, a function with an `x` of its own, and a block in it. -/
def shadowedGlobal : SymbolTable :=
  (((initial.pushScope globalScope "main").2.pushScope 1 "block").2.insert globalScope "x"
    (.var ⟨.int, none, ⟨0⟩, none⟩)).insert 1 "x" (.var ⟨.bool, none, ⟨1⟩, none⟩)

/-- From the block, `x` is the function's; a new `x` in the block hides it, a new global one does
not. -/
theorem lexical_shadowedGlobal :
    shadowedGlobal.Nested ∧ shadowedGlobal.lookup? 2 "x" = some (.var ⟨.bool, none, ⟨1⟩, none⟩) ∧
      (∀ entry, (shadowedGlobal.insert 2 "x" entry).lookup? 2 "x" = some entry) ∧
      ∀ entry, (shadowedGlobal.insert globalScope "x" entry).lookup? 2 "x"
        = shadowedGlobal.lookup? 2 "x" := by
  have nested : shadowedGlobal.Nested := (show shadowedGlobal.Sound by decide +kernel).nested
  obtain ⟨found, -, seen, -⟩ := lexical_scoping nested
  refine ⟨nested, ?_, ?_, ?_⟩
  · refine (found 2 "x" _).mpr ⟨1, [2], .past rfl rfl (.here rfl), ?_, by decide +kernel⟩
    exact List.forall_mem_singleton.mpr (by decide +kernel)
  · exact fun entry => (seen 2 "x" entry 2 "x").1 ⟨rfl, [], .here rfl, List.forall_mem_nil _⟩
  · intro entry
    refine (seen globalScope "x" entry 2 "x").2 ?_
    -- the function's own scope is passed on the way to the global one
    rintro ⟨-, closer, hout, hclear⟩
    match hout with
    | .past found inside (.past found' inside' _) =>
      cases found
      cases inside
      exact absurd (hclear 1 (by simp)) (by decide +kernel)
    | .past found inside (.here _) =>
      cases found
      cases inside

end SymbolTable
end A64Lowering
