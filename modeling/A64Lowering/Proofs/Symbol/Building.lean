import Mathlib
import A64Lowering.Symbol.Instance
import A64Lowering.Proofs.Symbol.Chain
import A64Lowering.Proofs.Symbol.Sound

/-! # The construction of an instance, step by step

* `Instance.Promises`: what holds after a step that succeeds, and after one that ends early.
* `run_build_succ`, `run_copyField_plain`, `run_copyField_struct` and their like: what the construction
  does, said once; whatever is proved of it starts from these.
* `promises_build`, `promises_copyField_plain`, `promises_copyField_struct`: the same by what holds
  afterwards.
* `grows_build`: the table grows, also when the construction ends early.
* `promises_copyField`: what the construction does for a field of a prototype in a sound table.
* `promises_fields`: what each field of a prototype keeps, all of them keep.
* `promises_build_of_fields`: what instances promise if it goes over from the fields to the whole.
* `SymbolTable.grows_instantiate`: an instance makes the table grow, a failed one leaves it as it
  was. -/
namespace A64Lowering
set_option autoImplicit false

namespace Instance

section Promises
variable {α β : Type} {st : State} {halt : Halt → State → Prop}

theorem run_bind (x : Step α) (next : α → Step β) (st : State) :
    (x >>= next).run st =
      match x.run st with
      | (.ok a, st) => (next a).run st
      | (.error h, st) => (.error h, st) := by
  have unfolded : (x >>= next).run st =
      match x.run st with
      | (result, st) => ExceptT.bindCont next result st := rfl
  rw [unfolded]
  rcases x.run st with ⟨h | a, after⟩ <;> rfl

/-- From `st` on, the step succeeds with `ok` or ends early with `halt`. -/
def Promises (x : Step α) (st : State) (ok : α → State → Prop) (halt : Halt → State → Prop) : Prop :=
  match x.run st with
  | (.ok a, after) => ok a after
  | (.error h, after) => halt h after

theorem Promises.mono {x : Step α} {ok ok' : α → State → Prop} {halt' : Halt → State → Prop}
    (h : Promises x st ok halt) (hok : ∀ a after, ok a after → ok' a after)
    (hhalt : ∀ reason after, halt reason after → halt' reason after) :
    Promises x st ok' halt' := by
  unfold Promises at h ⊢
  generalize x.run st = result at h ⊢
  rcases result with ⟨reason | a, after⟩
  · exact hhalt reason after h
  · exact hok a after h

theorem Promises.and {x : Step α} {ok ok' : α → State → Prop} {halt' : Halt → State → Prop}
    (h : Promises x st ok halt) (h' : Promises x st ok' halt') :
    Promises x st (fun a after => ok a after ∧ ok' a after)
      (fun reason after => halt reason after ∧ halt' reason after) := by
  unfold Promises at h h' ⊢
  generalize x.run st = result at h h' ⊢
  rcases result with ⟨reason | a, after⟩
  · exact ⟨h, h'⟩
  · exact ⟨h, h'⟩

theorem promises_bind {x : Step α} {next : α → Step β} {ok : β → State → Prop} :
    Promises (x >>= next) st ok halt ↔
      Promises x st (fun a mid => Promises (next a) mid ok halt) halt := by
  rw [Promises, Promises, run_bind]
  rcases x.run st with ⟨reason | a, after⟩ <;> rfl

/-- What holds of the list before each step, holds of it after the last one. -/
theorem promises_forM {l : List α} {f : α → Step Unit} (I : List α → State → Prop) (start : I [] st)
    (step : ∀ done a rest mid, l = done ++ a :: rest → I done mid →
      Promises (f a) mid (fun _ after => I (done ++ [a]) after) halt) :
    Promises (l.forM f) st (fun _ after => I l after) halt := by
  suffices go : ∀ (rest done : List α) (mid : State), l = done ++ rest → I done mid →
      Promises (rest.forM f) mid (fun _ after => I l after) halt from go l [] st rfl start
  intro rest
  induction rest with
  | nil =>
    intro done mid hl hI
    rw [List.append_nil] at hl
    exact hl ▸ hI
  | cons a rest ih =>
    intro done mid hl hI
    show Promises (f a >>= fun _ => rest.forM f) mid _ halt
    rw [promises_bind]
    refine (step done a rest mid hl hI).mono ?_ (fun _ _ h => h)
    intro _ after hafter
    exact ih (done ++ [a]) after (by rw [hl, List.append_assoc]; rfl) hafter

end Promises

/-! ## What the construction does -/

namespace State

/-- The state after one more register was drawn. -/
def drawn (st : State) : State := { st with vregs := st.vregs.draw.2 }

/-- The state with a scope changed. -/
def modify (st : State) (id : ScopeId) (f : Scope → Scope) : State :=
  { st with symbols := st.symbols.modifyScope id f }

/-- The state with one more scope. -/
def push (st : State) (parent : ScopeId) (name : String) : State :=
  { st with symbols := (st.symbols.pushScope parent name).2 }

/-- The state with a variable bound that has no literal. -/
def bindVar (st : State) (id : ScopeId) (field : String) (ty : Ty) (vreg : VReg)
    (fields : Option ScopeId) : State :=
  st.modify id (·.bind field (.var ⟨ty, none, vreg, fields⟩))

end State

section Runs
variable {depth : Nat} {names : List String} {proto parent typeScope id q : ScopeId} {p : Scope}
  {name field typeName structName : String} {ty : Ty} {vreg : VReg} {nested : Builder} {st : State}

theorem run_get (st : State) : (get : Step State).run st = (.ok st, st) := rfl

theorem run_draw (st : State) : draw.run st = (.ok ⟨st.vregs.drawn⟩, st.drawn) := rfl

theorem run_copyField_plain (hty : ty.structName? = none) :
    (copyField nested typeScope id field ty).run st
      = (.ok (), st.drawn.bindVar id field ty ⟨st.vregs.drawn⟩ none) := by
  cases ty with
  | struct name => exact absurd hty nofun
  | _ => rfl

theorem run_copyField_struct
    (resolved : st.symbols.lookup? typeScope typeName = some (.struct structName q vreg)) :
    (copyField nested typeScope id field (.struct typeName)).run st =
      match (nested q field id).run st.drawn with
      | (.ok inside, after) =>
        (.ok (), after.bindVar id field (.struct typeName) ⟨st.vregs.drawn⟩ (some inside))
      | (.error reason, after) => (.error reason, after) := by
  have hproto : (prototypeOf typeScope typeName field).run st.drawn = (.ok q, st.drawn) := by
    rw [prototypeOf, ExceptT.run_mk]
    split
    · next hfound =>
      cases resolved.symm.trans hfound
      rfl
    · next hunknown => exact absurd resolved (hunknown _ _ _)
  simp only [copyField, run_bind, run_draw, hproto, map_eq_pure_bind]
  rcases (nested q field id).run st.drawn with ⟨reason | inside, after⟩ <;> rfl

theorem run_copyField_unknown
    (unresolved : ∀ structName q vreg,
      st.symbols.lookup? typeScope typeName ≠ some (.struct structName q vreg)) :
    (copyField nested typeScope id field (.struct typeName)).run st
      = (.error (.fault (.unknownStructType typeName field)), st.drawn) := by
  have hproto : (prototypeOf typeScope typeName field).run st.drawn
      = (.error (.fault (.unknownStructType typeName field)), st.drawn) := by
    rw [prototypeOf, ExceptT.run_mk]
    split
    · next hfound => exact absurd hfound (unresolved _ _ _)
    · rfl
  simp only [copyField, run_bind, run_draw, hproto]

/-- The copies of all fields of a prototype, for the scope `id`. -/
def copyFields (depth : Nat) (names : List String) (p : Scope) (id : ScopeId) : Step Unit :=
  p.fields.forM fun (field, ty) =>
    copyField (build depth names) (p.parent.getD globalScope) id field ty

theorem run_build_missing (absent : st.symbols.scope? proto = none) :
    (build depth names proto name parent).run st = (.error (.fault (.notAStruct name)), st) := by
  rw [build, run_bind, run_get]
  simp only [absent]
  rfl

theorem run_build_again (found : st.symbols.scope? proto = some p) (again : p.name ∈ names) :
    (build depth names proto name parent).run st
      = (.error (.fault (.recursiveStruct p.name)), st) := by
  rw [build, run_bind, run_get]
  simp only [found, again, if_true]
  rfl

theorem run_build_zero (found : st.symbols.scope? proto = some p) (new : p.name ∉ names) :
    (build 0 names proto name parent).run st = (.error .tooDeep, st) := by
  rw [build, run_bind, run_get]
  simp only [found, new, if_false]
  rfl

/-- One instance opens a scope, copies the fields one after another and takes over the ordered
names. -/
theorem run_build_succ (found : st.symbols.scope? proto = some p) (new : p.name ∉ names) :
    (build (depth + 1) names proto name parent).run st =
      match (copyFields depth (p.name :: names) p st.symbols.scopeCount).run
        (st.push parent name) with
      | (.ok _, after) => (.ok st.symbols.scopeCount,
          after.modify st.symbols.scopeCount (·.takeOrder p))
      | (.error reason, after) => (.error reason, after) := by
  have hpush : (pushScope parent name).run st = (.ok st.symbols.scopeCount, st.push parent name) :=
    rfl
  simp only [build, run_bind, run_get, found, new, if_false, hpush]
  rw [← copyFields]
  generalize (copyFields depth (p.name :: names) p st.symbols.scopeCount).run _ = result
  rcases result with ⟨reason | _, after⟩ <;> rfl

end Runs

section Construction
variable {st : State} {halt : Halt → State → Prop}

theorem promises_copyField_plain {nested : Builder} {typeScope id : ScopeId} {field : String}
    {ty : Ty} {ok : Unit → State → Prop} (hty : ty.structName? = none)
    (h : ok () (st.drawn.bindVar id field ty ⟨st.vregs.drawn⟩ none)) :
    Promises (copyField nested typeScope id field ty) st ok halt := by
  rw [Promises, run_copyField_plain hty]
  exact h

theorem promises_copyField_struct {nested : Builder} {typeScope id : ScopeId}
    {field typeName : String} {ok : Unit → State → Prop}
    (found : ∀ name proto vreg,
      st.symbols.lookup? typeScope typeName = some (.struct name proto vreg) →
      Promises (nested proto field id) st.drawn
        (fun inner after =>
          ok () (after.bindVar id field (.struct typeName) ⟨st.vregs.drawn⟩ (some inner))) halt)
    (unknown : (∀ name proto vreg,
        st.symbols.lookup? typeScope typeName ≠ some (.struct name proto vreg)) →
      halt (.fault (.unknownStructType typeName field)) st.drawn) :
    Promises (copyField nested typeScope id field (.struct typeName)) st ok halt := by
  by_cases hresolved : ∃ name proto vreg,
      st.symbols.lookup? typeScope typeName = some (.struct name proto vreg)
  · obtain ⟨name, proto, vreg, hfound⟩ := hresolved
    have hnested := found name proto vreg hfound
    rw [Promises, run_copyField_struct hfound]
    rw [Promises] at hnested
    generalize (nested proto field id).run st.drawn = result at hnested ⊢
    rcases result with ⟨reason | inner, after⟩ <;> exact hnested
  · have hunknown : ∀ name proto vreg,
        st.symbols.lookup? typeScope typeName ≠ some (.struct name proto vreg) := by
      simpa using hresolved
    rw [Promises, run_copyField_unknown hunknown]
    exact unknown hunknown

/-- What holds when the register of a field is drawn, and still when its instance is built, is there
when the field is bound. -/
theorem promises_copyField_of_bind {nested : Builder} {typeScope id : ScopeId} {field : String}
    {ty : Ty} {ok : Unit → State → Prop} (P : State → Prop) (start : P st.drawn)
    (bound : ∀ u vreg fields, P u → ok () (u.bindVar id field ty vreg fields))
    (hnested : ∀ proto, Promises (nested proto field id) st.drawn (fun _ after => P after) halt)
    (unknown : ∀ typeName, halt (.fault (.unknownStructType typeName field)) st.drawn) :
    Promises (copyField nested typeScope id field ty) st ok halt := by
  cases ty with
  | struct typeName =>
    refine promises_copyField_struct ?_ (fun _ => unknown typeName)
    exact fun _ proto _ _ =>
      (hnested proto).mono (fun _ after h => bound after _ _ h) (fun _ _ h => h)
  | _ => exact promises_copyField_plain rfl (bound _ _ _ start)

/-- The construction of one instance: without a prototype or with a name that came before it ends;
else it opens a scope, copies the fields one after another and takes over the ordered names. -/
theorem promises_build {depth : Nat} {names : List String} {proto : ScopeId} {name : String}
    {parent : ScopeId} {ok : ScopeId → State → Prop}
    (missing : st.symbols.scope? proto = none → halt (.fault (.notAStruct name)) st)
    (again : ∀ p, st.symbols.scope? proto = some p → p.name ∈ names →
      halt (.fault (.recursiveStruct p.name)) st)
    (tooDeep : ∀ p, st.symbols.scope? proto = some p → p.name ∉ names → depth = 0 →
      halt .tooDeep st)
    (copies : ∀ p rest, st.symbols.scope? proto = some p → p.name ∉ names → depth = rest + 1 →
      Promises (copyFields rest (p.name :: names) p st.symbols.scopeCount) (st.push parent name)
        (fun _ after => ok st.symbols.scopeCount
          (after.modify st.symbols.scopeCount (·.takeOrder p))) halt) :
    Promises (build depth names proto name parent) st ok halt := by
  cases hp : st.symbols.scope? proto with
  | none =>
    rw [Promises, run_build_missing hp]
    exact missing hp
  | some p =>
    by_cases hmem : p.name ∈ names
    · rw [Promises, run_build_again hp hmem]
      exact again p hp hmem
    · cases depth with
      | zero =>
        rw [Promises, run_build_zero hp hmem]
        exact tooDeep p hp hmem rfl
      | succ rest =>
        have hcopies := copies p rest hp hmem rfl
        rw [Promises, run_build_succ hp hmem]
        rw [Promises] at hcopies
        generalize (copyFields rest (p.name :: names) p _).run _ = result at hcopies ⊢
        rcases result with ⟨reason | _, after⟩ <;> exact hcopies

end Construction

/-! ## Growth -/

theorem scopeCount_lt_push (st : State) (parent : ScopeId) (name : String) :
    st.symbols.scopeCount < (st.push parent name).symbols.scopeCount := by
  rw [State.push, SymbolTable.scopeCount_pushScope]
  exact Nat.lt_succ_self _

theorem grows_copyField {t : SymbolTable} {nested : Builder} {id : ScopeId} {st : State}
    (typeScope : ScopeId) (field : String) (ty : Ty) (hst : t.Grows st.symbols) (hid : t.scopeCount ≤ id)
    (hroom : id < st.symbols.scopeCount)
    (hnested : ∀ proto, Promises (nested proto field id) st.drawn
      (fun _ after => st.symbols.Grows after.symbols)
      (fun _ after => st.symbols.Grows after.symbols)) :
    Promises (copyField nested typeScope id field ty) st
      (fun _ after => t.Grows after.symbols ∧ id < after.symbols.scopeCount)
      (fun _ after => t.Grows after.symbols) := by
  refine promises_copyField_of_bind (fun u => st.symbols.Grows u.symbols) (.refl _) ?_ ?_ (fun _ => hst)
  · intro u vreg fields hu
    refine ⟨(hst.trans hu).modifyScope hid fun _ => rfl, ?_⟩
    rw [State.bindVar, State.modify, SymbolTable.scopeCount_modifyScope]
    exact hroom.trans_le hu.scopeCount_le
  · exact fun proto => (hnested proto).mono (fun _ _ h => h) (fun _ _ h => hst.trans h)

/-- The table grows while an instance is built inside a scope that exists, however that ends. -/
theorem grows_build (depth : Nat) : ∀ (names : List String) (proto : ScopeId) (name : String)
    {parent : ScopeId} (st : State), parent < st.symbols.scopeCount →
      Promises (build depth names proto name parent) st
        (fun _ after => st.symbols.Grows after.symbols)
        (fun _ after => st.symbols.Grows after.symbols) := by
  induction depth with
  | zero =>
    intro names proto name parent st _
    exact promises_build (fun _ => .refl _) (fun _ _ _ => .refl _) (fun _ _ _ _ => .refl _) nofun
  | succ depth ih =>
    intro names proto name parent st hparent
    refine promises_build (fun _ => .refl _) (fun _ _ _ => .refl _) nofun ?_
    intro p rest hp hmem hdepth
    cases hdepth
    have hpush : st.symbols.Grows (st.push parent name).symbols :=
      (SymbolTable.Grows.refl _).pushScope hparent name
    refine (promises_forM (fun _ mid => st.symbols.Grows mid.symbols ∧
      st.symbols.scopeCount < mid.symbols.scopeCount)
      ⟨hpush, scopeCount_lt_push st parent name⟩ ?_).mono ?_ (fun _ _ h => h)
    · intro done field rest mid _ hmid
      exact grows_copyField _ field.1 field.2 hmid.1 le_rfl hmid.2 fun proto =>
        ih _ proto field.1 mid.drawn hmid.2
    · intro _ after hafter
      exact hafter.1.modifyScope le_rfl fun _ => rfl

/-! ## Prototypes of a sound table -/

section Prototypes
variable {t : SymbolTable} {p : Scope} {st : State}

/-- A field of a prototype in the making is a variable of its own, or has an instance of the prototype
that the table had for its type. -/
theorem promises_copyField (sound : t.Sound) {nested : Builder} {proto id : ScopeId} {field : String}
    {v : Variable} {ok : Unit → State → Prop} {halt : Halt → State → Prop}
    (hst : t.Grows st.symbols) (hp : t.scope? proto = some p)
    (plain : v.ty.structName? = none →
      ok () (st.drawn.bindVar id field v.ty ⟨st.vregs.drawn⟩ none))
    (found : ∀ typeName name q vreg, v.ty = .struct typeName →
      t.lookup? (p.parent.getD globalScope) typeName = some (.struct name q vreg) →
      Promises (nested q field id) st.drawn
        (fun inner after => ok () (after.bindVar id field v.ty ⟨st.vregs.drawn⟩ (some inner))) halt)
    (unknown : ∀ typeName, v.ty = .struct typeName →
      (∀ name q vreg, t.lookup? (p.parent.getD globalScope) typeName ≠ some (.struct name q vreg)) →
      halt (.fault (.unknownStructType typeName field)) st.drawn) :
    Promises (copyField nested (p.parent.getD globalScope) id field v.ty) st ok halt := by
  generalize v.ty = ty at plain found unknown ⊢
  cases hty : ty.structName? with
  | none => exact promises_copyField_plain hty (plain hty)
  | some typeName =>
    obtain rfl := Ty.structName?_eq_some.mp hty
    -- the scopes in the making are not on the way out of the prototype
    have hlookup : st.symbols.lookup? (p.parent.getD globalScope) typeName
        = t.lookup? (p.parent.getD globalScope) typeName :=
      hst.lookup? sound.nested (sound.typeScope_lt hp) typeName
    refine promises_copyField_struct ?_ ?_
    · intro name q vreg hfound
      exact found typeName name q vreg rfl (hlookup ▸ hfound)
    · intro hunknown
      exact unknown typeName rfl fun name q vreg h => hunknown name q vreg (hlookup ▸ h)

/-- What holds before each field of a prototype is copied, holds when all are. Meanwhile the table
grows, and the new scope is there. -/
theorem promises_fields {depth : Nat} {names : List String} {name : String} {parent : ScopeId}
    {halt : Halt → State → Prop}
    (hst : t.Grows st.symbols) (hparent : parent < st.symbols.scopeCount)
    (I : List (String × Ty) → State → Prop) (start : I [] (st.push parent name))
    (step : ∀ done field v mid, p.var? field = some v → t.Grows mid.symbols →
      st.symbols.scopeCount < mid.symbols.scopeCount → I done mid →
      Promises (copyField (build depth names) (p.parent.getD globalScope) st.symbols.scopeCount field
        v.ty) mid (fun _ after => I (done ++ [(field, v.ty)]) after) halt) :
    Promises (copyFields depth names p st.symbols.scopeCount) (st.push parent name)
      (fun _ after => I p.fields after) halt := by
  refine (promises_forM (fun done mid => (t.Grows mid.symbols ∧
      st.symbols.scopeCount < mid.symbols.scopeCount) ∧ I done mid)
    ⟨⟨hst.pushScope hparent name, scopeCount_lt_push st parent name⟩, start⟩ ?_).mono
    (fun _ _ h => h.2) (fun _ _ h => h)
  rintro done ⟨field, ty⟩ rest mid hfields ⟨⟨hmid, hroom⟩, hI⟩
  have hfield : ∃ v, p.var? field = some v ∧ v.ty = ty :=
    Scope.mem_fields.mp (hfields ▸ List.mem_append_right _ List.mem_cons_self)
  obtain ⟨v, hv, rfl⟩ := hfield
  have hgrows := grows_copyField (p.parent.getD globalScope) field v.ty hmid hst.scopeCount_le hroom
    fun q => grows_build depth names q field mid.drawn hroom
  exact (hgrows.and (step done field v mid hv hmid hroom hI)).mono (fun _ _ h => h)
    fun _ _ h => h.2

/-- What instances promise: the relation between what they are made for, the state before and the
state after with the identifier. -/
abbrev Outcome :=
  (proto : ScopeId) → (name : String) → (parent : ScopeId) → State → ScopeId → State → Prop

/-- All instances inside scopes that exist have the outcome, whenever they are made. -/
def PromisesNested (t : SymbolTable) (depth : Nat) (names : List String) (R : Outcome) : Prop :=
  ∀ q field parent st, q < t.scopeCount → t.Grows st.symbols → parent < st.symbols.scopeCount →
    Promises (build depth names q field parent) st (R q field parent st) (fun _ _ => True)

/-- If it goes over from the nested instances to each instance, it is promised for all of them. -/
theorem promises_build_of_fields (R : Outcome)
    (step : ∀ depth names proto p name parent st, t.scope? proto = some p → t.Grows st.symbols →
      parent < st.symbols.scopeCount → PromisesNested t depth names R →
      Promises (copyFields depth names p st.symbols.scopeCount) (st.push parent name)
        (fun _ after => R proto name parent st st.symbols.scopeCount
          (after.modify st.symbols.scopeCount (·.takeOrder p)))
        (fun _ _ => True))
    (depth : Nat) : ∀ (names : List String) (proto : ScopeId) (name : String) {parent : ScopeId}
    (st : State), st.symbols.scope? proto = t.scope? proto → t.Grows st.symbols →
    parent < st.symbols.scopeCount →
    Promises (build depth names proto name parent) st (R proto name parent st) (fun _ _ => True) := by
  induction depth with
  | zero =>
    intro names proto name parent st _ _ _
    exact promises_build (fun _ => trivial) (fun _ _ _ => trivial) (fun _ _ _ _ => trivial) nofun
  | succ depth ih =>
    intro names proto name parent st hproto hst hparent
    refine promises_build (fun _ => trivial) (fun _ _ _ => trivial) nofun ?_
    intro p rest hp _ hdepth
    cases hdepth
    -- the prototypes of the fields are scopes of `t`, which growth keeps
    refine step depth _ proto p name parent st (hproto ▸ hp) hst hparent ?_
    intro q field inside mid hq hmid hroom
    exact ih _ q field mid (hmid.scope?_eq hq) hmid hroom

end Prototypes
end Instance

namespace SymbolTable
variable {t : SymbolTable} {proto parent : ScopeId} {name : String} {vregs : VRegSupply}

/-- What holds of the construction, holds of the instance; a failure drops the new scopes. -/
theorem instantiateWithin_of_promises {depth : Nat} {ok : ScopeId → Instance.State → Prop}
    {halt : Instance.Halt → Instance.State → Prop}
    (h : Instance.Promises (Instance.build depth [] proto name parent) ⟨t, vregs⟩ ok halt) :
    (∃ id after vregs', t.instantiateWithin depth proto name parent vregs = (.ok id, after, vregs') ∧
      ok id ⟨after, vregs'⟩) ∨
    (∃ reason st, t.instantiateWithin depth proto name parent vregs
      = (.error reason, st.symbols.truncate t.scopeCount, st.vregs) ∧ halt reason st) := by
  unfold Instance.Promises at h
  unfold instantiateWithin
  generalize (Instance.build depth [] proto name parent).run ⟨t, vregs⟩ = result at h ⊢
  rcases result with ⟨reason | id, st⟩
  · exact .inr ⟨reason, st, rfl, h⟩
  · exact .inl ⟨id, st.symbols, st.vregs, rfl, h⟩

/-- An instance makes the table grow, and a failed one leaves it as it was. -/
theorem grows_instantiate (hparent : parent < t.scopeCount) (proto : ScopeId) (name : String)
    (vregs : VRegSupply) :
    t.Grows (t.instantiate proto name parent vregs).2.1 ∧
      ∀ fault, (t.instantiate proto name parent vregs).1 = .error fault →
        (t.instantiate proto name parent vregs).2.1 = t := by
  rcases instantiateWithin_of_promises
    (Instance.grows_build t.nestingBound [] proto name ⟨t, vregs⟩ hparent) with
    ⟨id, after, vregs', hrun, hafter⟩ | ⟨reason, st, hrun, hst⟩
  · rw [instantiate, hrun]
    exact ⟨hafter, nofun⟩
  · rw [instantiate, hrun]
    have hsame : st.symbols.truncate t.scopeCount = t := hst.truncate
    simp only [hsame]
    exact ⟨.refl t, fun _ _ => trivial⟩

end SymbolTable
end A64Lowering
