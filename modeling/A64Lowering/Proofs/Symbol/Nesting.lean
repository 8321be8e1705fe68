import Mathlib
import A64Lowering.Proofs.Symbol.Building
import A64Lowering.Proofs.Symbol.Fields

/-! # The construction of an instance without a bound

* `Instance.Builds`, `Instance.Fills`: how the construction ends if nothing bounds it, after how many
  registers, and how deep constructions stand inside one another.
* `Builds.drawn`: how far the supply of registers has moved then.
* `builds_of_run`, `Builds.run`: with a bound it ends in the same way, or too deep.
* `Builds.unique`: there is one way in which it ends. `SymbolTable.instantiate_of_builds`: that is
  what the table's instance is. -/
namespace A64Lowering
set_option autoImplicit false

namespace Instance

mutual

/-- The instance of `proto`, below prototypes with these names, is built or has a fault. On the way
`draws` registers are drawn, and at most `nesting` constructions stand inside this one. -/
inductive Builds : (nesting draws : Nat) → (names : List String) → (proto : ScopeId) →
    (name : String) → (parent : ScopeId) → State → Except StructFault ScopeId → State → Prop where
  | missing {nesting names proto name parent} {st : State}
      (absent : st.symbols.scope? proto = none) :
      Builds nesting 0 names proto name parent st (.error (.notAStruct name)) st
  | recursive {nesting names proto name parent} {st : State} {p : Scope}
      (found : st.symbols.scope? proto = some p) (again : p.name ∈ names) :
      Builds nesting 0 names proto name parent st (.error (.recursiveStruct p.name)) st
  | built {nesting draws names proto name parent} {st after : State} {p : Scope}
      (found : st.symbols.scope? proto = some p) (new : p.name ∉ names)
      (copied : Fills nesting draws (p.name :: names) (p.parent.getD globalScope)
        st.symbols.scopeCount p.fields (st.push parent name) (.ok ()) after) :
      Builds (nesting + 1) draws names proto name parent st (.ok st.symbols.scopeCount)
        (after.modify st.symbols.scopeCount (·.takeOrder p))
  | stopped {nesting draws names proto name parent fault} {st after : State} {p : Scope}
      (found : st.symbols.scope? proto = some p) (new : p.name ∉ names)
      (copied : Fills nesting draws (p.name :: names) (p.parent.getD globalScope)
        st.symbols.scopeCount p.fields (st.push parent name) (.error fault) after) :
      Builds (nesting + 1) draws names proto name parent st (.error fault) after

/-- Into the scope `id` all fields are copied, or all up to one that has a fault. -/
inductive Fills : (nesting draws : Nat) → (names : List String) → (typeScope id : ScopeId) →
    (fields : List (String × Ty)) → State → Except StructFault Unit → State → Prop where
  | done {nesting names typeScope id st} : Fills nesting 0 names typeScope id [] st (.ok ()) st
  | plain {nesting draws names typeScope id field rest result after} {ty : Ty} {st : State}
      (hty : ty.structName? = none)
      (others : Fills nesting draws names typeScope id rest
        (st.drawn.bindVar id field ty ⟨st.vregs.drawn⟩ none) result after) :
      Fills nesting (1 + draws) names typeScope id ((field, ty) :: rest) st result after
  | unknown {nesting names typeScope id field rest} {typeName : String} {st : State}
      (unresolved : ∀ structName q vreg,
        st.symbols.lookup? typeScope typeName ≠ some (.struct structName q vreg)) :
      Fills nesting 1 names typeScope id ((field, .struct typeName) :: rest) st
        (.error (.unknownStructType typeName field)) st.drawn
  | inner {nesting draws others names typeScope id field rest result after inside}
      {typeName structName : String} {q : ScopeId} {vreg : VReg} {st mid : State}
      (resolved : st.symbols.lookup? typeScope typeName = some (.struct structName q vreg))
      (built : Builds nesting draws names q field id st.drawn (.ok inside) mid)
      (copied : Fills nesting others names typeScope id rest
        (mid.bindVar id field (.struct typeName) ⟨st.vregs.drawn⟩ (some inside)) result after) :
      Fills nesting (1 + draws + others) names typeScope id ((field, .struct typeName) :: rest) st
        result after
  | stopped {nesting draws names typeScope id field rest fault after}
      {typeName structName : String} {q : ScopeId} {vreg : VReg} {st : State}
      (resolved : st.symbols.lookup? typeScope typeName = some (.struct structName q vreg))
      (stopped : Builds nesting draws names q field id st.drawn (.error fault) after) :
      Fills nesting (1 + draws) names typeScope id ((field, .struct typeName) :: rest) st
        (.error fault) after

end

/-! ## How far the supply moves -/

@[simp] theorem drawn_drawn (st : State) : st.drawn.vregs.drawn = st.vregs.drawn + 1 := rfl

@[simp] theorem drawn_bindVar (st : State) (id : ScopeId) (field : String) (ty : Ty) (vreg : VReg)
    (inside : Option ScopeId) :
    (st.bindVar id field ty vreg inside).vregs.drawn = st.vregs.drawn := rfl

mutual

theorem Builds.drawn {nesting draws names proto name parent result} {st after : State}
    (h : Builds nesting draws names proto name parent st result after) :
    after.vregs.drawn = st.vregs.drawn + .ofNat draws := by
  match h with
  | .missing _ | .recursive _ _ => simp
  | .built _ _ copied => exact copied.drawn
  | .stopped _ _ copied => exact copied.drawn
termination_by structural h

theorem Fills.drawn {nesting draws names typeScope id fields result} {st after : State}
    (h : Fills nesting draws names typeScope id fields st result after) :
    after.vregs.drawn = st.vregs.drawn + .ofNat draws := by
  match h with
  | .done => simp
  | .plain _ others => simp [others.drawn, UInt32.ofNat_add, UInt32.add_assoc]
  | .unknown _ => rfl
  | .inner _ built copied => simp [copied.drawn, built.drawn, UInt32.ofNat_add, UInt32.add_assoc]
  | .stopped _ stopped => simp [stopped.drawn, UInt32.ofNat_add, UInt32.add_assoc]
termination_by structural h

end

/-! ## With a bound -/

theorem run_forM_cons {α : Type} (f : α → Step Unit) (a : α) (l : List α) (st : State) :
    ((a :: l).forM f).run st =
      match (f a).run st with
      | (.ok _, mid) => (l.forM f).run mid
      | (.error reason, after) => (.error reason, after) := by
  show (f a >>= fun _ => l.forM f).run st = _
  rw [run_bind]
  rcases (f a).run st with ⟨reason | _, after⟩ <;> rfl

theorem fills_of_run {depth : Nat} {names : List String} (typeScope id : ScopeId)
    (hbuild : ∀ proto name parent st result after, (build depth names proto name parent).run st
      = (result.mapError .fault, after) →
      ∃ draws, Builds depth draws names proto name parent st result after) :
    ∀ (fields : List (String × Ty)) (st : State) (result : Except StructFault Unit) (after : State),
      (fields.forM fun (field, ty) => copyField (build depth names) typeScope id field ty).run st
        = (result.mapError .fault, after) →
      ∃ draws, Fills depth draws names typeScope id fields st result after := by
  intro fields
  induction fields with
  | nil =>
    intro st result after h
    cases result <;> cases h
    exact ⟨0, .done⟩
  | cons entry rest ih =>
    obtain ⟨field, ty⟩ := entry
    intro st result after h
    rw [run_forM_cons] at h
    cases hty : ty.structName? with
    | none =>
      rw [run_copyField_plain hty] at h
      obtain ⟨draws, hrest⟩ := ih _ result after h
      exact ⟨_, .plain hty hrest⟩
    | some typeName =>
      obtain rfl := Ty.structName?_eq_some.mp hty
      by_cases hresolved : ∃ structName q vreg,
          st.symbols.lookup? typeScope typeName = some (.struct structName q vreg)
      · obtain ⟨structName, q, vreg, hfound⟩ := hresolved
        have hinside := hbuild q field id st.drawn
        rw [run_copyField_struct hfound] at h
        generalize (build depth names q field id).run st.drawn = run at h hinside
        rcases run with ⟨reason | inside, mid⟩
        · cases result <;> cases h
          obtain ⟨draws, hstopped⟩ := hinside (.error _) after rfl
          exact ⟨_, .stopped hfound hstopped⟩
        · obtain ⟨draws, hbuilt⟩ := hinside (.ok inside) mid rfl
          obtain ⟨others, hrest⟩ := ih _ result after h
          exact ⟨_, .inner hfound hbuilt hrest⟩
      · have hunknown : ∀ structName q vreg,
            st.symbols.lookup? typeScope typeName ≠ some (.struct structName q vreg) := by
          simpa using hresolved
        rw [run_copyField_unknown hunknown] at h
        cases result <;> cases h
        exact ⟨1, .unknown hunknown⟩

/-- Where the bound is not met, the construction ends as if there was none. -/
theorem builds_of_run (depth : Nat) : ∀ (names : List String) (proto : ScopeId) (name : String)
    (parent : ScopeId) (st : State) (result : Except StructFault ScopeId) (after : State),
    (build depth names proto name parent).run st = (result.mapError .fault, after) →
    ∃ draws, Builds depth draws names proto name parent st result after := by
  induction depth using Nat.strong_induction_on with
  | _ depth ih =>
    intro names proto name parent st result after h
    cases hp : st.symbols.scope? proto with
    | none =>
      rw [run_build_missing hp] at h
      cases result <;> cases h
      exact ⟨0, .missing hp⟩
    | some p =>
      by_cases hmem : p.name ∈ names
      · rw [run_build_again hp hmem] at h
        cases result <;> cases h
        exact ⟨0, .recursive hp hmem⟩
      · cases depth with
        | zero =>
          rw [run_build_zero hp hmem] at h
          cases result <;> cases h
        | succ depth =>
          have hcopied := fills_of_run (p.parent.getD globalScope) st.symbols.scopeCount
            (ih depth (Nat.lt_succ_self depth) (p.name :: names)) p.fields (st.push parent name)
          rw [← copyFields] at hcopied
          rw [run_build_succ hp hmem] at h
          generalize (copyFields depth (p.name :: names) p _).run _ = run at h hcopied
          rcases run with ⟨reason | _, mid⟩
          · cases result <;> cases h
            obtain ⟨draws, hstopped⟩ := hcopied (.error _) after rfl
            exact ⟨draws, .stopped hp hmem hstopped⟩
          · cases result <;> cases h
            obtain ⟨draws, hbuilt⟩ := hcopied (.ok ()) mid rfl
            exact ⟨draws, .built hp hmem hbuilt⟩

mutual

/-- A bound that is not below the nesting changes nothing. -/
theorem Builds.run {nesting draws names proto name parent result} {st after : State}
    (h : Builds nesting draws names proto name parent st result after) (depth : Nat)
    (hdepth : nesting ≤ depth) :
    (build depth names proto name parent).run st = (result.mapError .fault, after) := by
  match h with
  | .missing absent => exact run_build_missing absent
  | .recursive found again => exact run_build_again found again
  | .built found new copied =>
    obtain ⟨rest, rfl⟩ := Nat.exists_eq_add_of_le' (Nat.one_le_of_lt hdepth)
    rw [run_build_succ found new, copyFields, copied.run rest (Nat.le_of_succ_le_succ hdepth)]
    rfl
  | .stopped found new copied =>
    obtain ⟨rest, rfl⟩ := Nat.exists_eq_add_of_le' (Nat.one_le_of_lt hdepth)
    rw [run_build_succ found new, copyFields, copied.run rest (Nat.le_of_succ_le_succ hdepth)]
    rfl
termination_by structural h

theorem Fills.run {nesting draws names typeScope id fields result} {st after : State}
    (h : Fills nesting draws names typeScope id fields st result after) (depth : Nat)
    (hdepth : nesting ≤ depth) :
    (fields.forM fun (field, ty) => copyField (build depth names) typeScope id field ty).run st
      = (result.mapError .fault, after) := by
  match h with
  | .done => rfl
  | .plain hty others =>
    rw [run_forM_cons, run_copyField_plain hty]
    exact others.run depth hdepth
  | .unknown unresolved =>
    rw [run_forM_cons, run_copyField_unknown unresolved]
    rfl
  | .inner resolved built copied =>
    rw [run_forM_cons, run_copyField_struct resolved, built.run depth hdepth]
    exact copied.run depth hdepth
  | .stopped resolved stopped =>
    rw [run_forM_cons, run_copyField_struct resolved, stopped.run depth hdepth]
    rfl
termination_by structural h

end

theorem Builds.unique {nesting nesting' draws draws' names proto name parent result result'}
    {st after after' : State} (h : Builds nesting draws names proto name parent st result after)
    (h' : Builds nesting' draws' names proto name parent st result' after') :
    result = result' ∧ after = after' := by
  -- both are the run with a bound that is enough for either
  have hruns := (h.run _ (Nat.le_max_left nesting nesting')).symm.trans
    (h'.run _ (Nat.le_max_right nesting nesting'))
  obtain ⟨hresult, hafter⟩ := Prod.mk.inj hruns
  refine ⟨?_, hafter⟩
  cases result <;> cases result' <;> cases hresult <;> rfl

/-- A construction that does not end too deep, ends. -/
theorem exists_builds_of_promises {depth : Nat} {names : List String} {proto parent : ScopeId}
    {name : String} {st : State} {ok : ScopeId → State → Prop} {halt : Halt → State → Prop}
    (h : Promises (build depth names proto name parent) st ok halt)
    (shallow : ∀ after, ¬ halt .tooDeep after) :
    ∃ draws result after, Builds depth draws names proto name parent st result after := by
  have hruns := builds_of_run depth names proto name parent st
  unfold Promises at h
  generalize (build depth names proto name parent).run st = run at h hruns
  match run with
  | (.ok id, after) =>
    obtain ⟨draws, hbuilds⟩ := hruns (.ok id) after rfl
    exact ⟨draws, _, _, hbuilds⟩
  | (.error (.fault fault), after) =>
    obtain ⟨draws, hbuilds⟩ := hruns (.error fault) after rfl
    exact ⟨draws, _, _, hbuilds⟩
  | (.error .tooDeep, after) => exact absurd h (shallow after)

end Instance

namespace SymbolTable
open Instance (Builds State)
variable {t : SymbolTable} {proto parent : ScopeId} {name : String} {vregs : VRegSupply}

/-- The end of the construction is the instance. After a fault the table is cut off where it ended
before. -/
theorem instantiate_eq_of_builds {nesting draws : Nat} {result : Except StructFault ScopeId}
    {after : State} (h : Builds nesting draws [] proto name parent ⟨t, vregs⟩ result after)
    (hnesting : nesting ≤ t.nestingBound) :
    t.instantiate proto name parent vregs =
      (result, if result.isOk then after.symbols else after.symbols.truncate t.scopeCount,
        after.vregs) := by
  rw [instantiate, instantiateWithin, h.run _ hnesting]
  cases result <;> rfl

/-- A fault leaves the table as it was, if the instance was to be inside a scope. -/
theorem instantiate_of_builds {nesting draws : Nat} {result : Except StructFault ScopeId}
    {after : State} (hparent : parent < t.scopeCount)
    (h : Builds nesting draws [] proto name parent ⟨t, vregs⟩ result after)
    (hnesting : nesting ≤ t.nestingBound) :
    t.instantiate proto name parent vregs =
      (result, if result.isOk then after.symbols else t, after.vregs) := by
  have hgrows := Instance.grows_build t.nestingBound [] proto name ⟨t, vregs⟩ hparent
  rw [Instance.Promises, h.run _ hnesting] at hgrows
  rw [instantiate_eq_of_builds h hnesting]
  cases result with
  | ok id => rfl
  | error fault =>
    show (_, after.symbols.truncate t.scopeCount, _) = _
    rw [hgrows.truncate]
    rfl

end SymbolTable
end A64Lowering
