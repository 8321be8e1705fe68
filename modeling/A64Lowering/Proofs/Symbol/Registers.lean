import Mathlib
import A64Lowering.Proofs.Symbol.Copy

/-! # The registers of an instance

* `Logged`: a log of places, one for each register drawn, gives every variable of the new scopes a
  register of its own. `Logged.append`, `Logged.bind`: how a log goes on.
* `fieldCount`: how many fields the new scopes have, a name that is ordered twice counted twice.
* `numbered_build`: the construction of an instance draws one register for each field.
* `SymbolTable.copyOf_instantiate`: an instance is a copy of its prototype with registers of its
  own, and nothing else changes. -/
namespace A64Lowering
set_option autoImplicit false

namespace SymbolTable
variable {t u mid after : SymbolTable} {start : ScopeId} {base : UInt32}
  {log : List (ScopeId × String)}

/-! ## Logs -/

/-- The variable `field` of the scope `id` is stored in `r`. -/
def Holds (t : SymbolTable) (id : ScopeId) (field : String) (r : VReg) : Prop :=
  ∃ s v, t.scope? id = some s ∧ s.var? field = some v ∧ v.vreg = r

theorem Holds.congr {id : ScopeId} {field : String} {r : VReg} (h : u.Holds id field r)
    (same : t.scope? id = u.scope? id) : t.Holds id field r := by
  obtain ⟨s, v, hs, hv, hr⟩ := h
  exact ⟨s, v, same.trans hs, hv, hr⟩

/-- Every variable in the scopes from `start` on has the register of a place of its own in the log,
where the registers are counted from `base`. -/
def Logged (u : SymbolTable) (start : ScopeId) (base : UInt32) (log : List (ScopeId × String)) :
    Prop :=
  ∀ id field r, start ≤ id → u.Holds id field r →
    ∃ k, log[k]? = some (id, field) ∧ r.id = base + UInt32.ofNat k

theorem logged_nil (u : SymbolTable) (base : UInt32) : u.Logged u.scopeCount base [] := by
  rintro id field r hid ⟨s, v, hs, -, -⟩
  exact absurd (scope?_lt hs) (Nat.not_lt.mpr hid)

theorem logged_pushScope (u : SymbolTable) (parent : ScopeId) (name : String) (base : UInt32) :
    (u.pushScope parent name).2.Logged u.scopeCount base [] := by
  rintro id field r hid ⟨s, v, hs, hv, -⟩
  rcases scope?_of_pushScope hs with ⟨-, rfl⟩ | hold
  · exact absurd hv nofun
  · exact absurd (scope?_lt hold) (Nat.not_lt.mpr hid)

theorem Logged.extend (h : u.Logged start base log) (more : List (ScopeId × String)) :
    u.Logged start base (log ++ more) := by
  intro id field r hid hr
  obtain ⟨k, hk, hnumber⟩ := h id field r hid hr
  refine ⟨k, ?_, hnumber⟩
  rw [List.getElem?_append_left (List.getElem?_eq_some_iff.mp hk).1]
  exact hk

/-- The log of the scopes that came later goes on where the first one ends. -/
theorem Logged.append (h : mid.Logged start base log) (hgrows : mid.Grows after)
    {more : List (ScopeId × String)}
    (hmore : after.Logged mid.scopeCount (base + UInt32.ofNat log.length) more) :
    after.Logged start base (log ++ more) := by
  intro id field r hid hr
  by_cases hold : id < mid.scopeCount
  · exact h.extend more id field r hid (hr.congr (hgrows.scope?_eq hold).symm)
  · obtain ⟨k, hk, hnumber⟩ := hmore id field r (Nat.not_lt.mp hold) hr
    refine ⟨log.length + k, ?_, ?_⟩
    · rw [List.getElem?_append_right (Nat.le_add_right _ _), Nat.add_sub_cancel_left]
      exact hk
    · rw [hnumber, UInt32.ofNat_add, UInt32.add_assoc]

/-- A variable may be bound to the register of its place. -/
theorem Logged.bind (h : u.Logged start base log) {id : ScopeId} {field : String} {v : Variable}
    {k : Nat} (hk : log[k]? = some (id, field)) (hnumber : v.vreg.id = base + UInt32.ofNat k) :
    (u.modifyScope id (·.bind field (.var v))).Logged start base log := by
  rintro other field' r hother ⟨s, w, hs, hw, rfl⟩
  rcases scope?_of_modifyScope hs with ⟨rfl, old, hold, rfl⟩ | hold
  · rw [Scope.var?_bind] at hw
    split at hw
    · next hfield =>
      cases hw
      exact ⟨k, hfield ▸ hk, hnumber⟩
    · exact h id field' w.vreg hother ⟨old, w, hold, hw, rfl⟩
  · exact h other field' w.vreg hother ⟨s, w, hold, hw, rfl⟩

/-- A change that leaves the bindings leaves the log. -/
theorem Logged.modifyScope (h : u.Logged start base log) (changed : ScopeId) {f : Scope → Scope}
    (hf : ∀ s, (f s).entries = s.entries) : (u.modifyScope changed f).Logged start base log := by
  rintro id field r hid ⟨s, v, hs, hv, hr⟩
  rcases scope?_of_modifyScope hs with ⟨-, old, hold, rfl⟩ | hold
  · have hvar : (f old).var? field = old.var? field := by
      unfold Scope.var?
      rw [hf]
    exact h id field r hid ⟨old, v, hold, hvar ▸ hv, hr⟩
  · exact h id field r hid ⟨s, v, hold, hv, hr⟩

section Numbers
variable {id id' : ScopeId} {field field' : String} {r : VReg}

/-- As long as the identifiers do not run out, no two variables have the same register. -/
theorem Logged.distinct (h : u.Logged start base log) (hlength : log.length ≤ 2 ^ 32)
    (hid : start ≤ id) (hr : u.Holds id field r) (hid' : start ≤ id') (hr' : u.Holds id' field' r) :
    id = id' ∧ field = field' := by
  obtain ⟨k, hk, hnumber⟩ := h id field r hid hr
  obtain ⟨k', hk', hnumber'⟩ := h id' field' r hid' hr'
  have hlt : k < 2 ^ 32 := (List.getElem?_eq_some_iff.mp hk).1.trans_le hlength
  have hlt' : k' < 2 ^ 32 := (List.getElem?_eq_some_iff.mp hk').1.trans_le hlength
  have hofNat : UInt32.ofNat k = UInt32.ofNat k' :=
    add_left_cancel (hnumber.symm.trans hnumber')
  have hsame : k = k' := by
    have := congrArg UInt32.toNat hofNat
    rwa [UInt32.toNat_ofNat_of_lt' hlt, UInt32.toNat_ofNat_of_lt' hlt'] at this
  subst hsame
  rw [hk] at hk'
  cases hk'
  exact ⟨rfl, rfl⟩

/-- As long as the identifiers do not run out, the registers follow those before `base`. -/
theorem Logged.fresh (h : u.Logged start base log) (hlength : base.toNat + log.length ≤ 2 ^ 32)
    (hid : start ≤ id) (hr : u.Holds id field r) :
    base.toNat ≤ r.id.toNat ∧ r.id.toNat < base.toNat + log.length := by
  obtain ⟨k, hk, hnumber⟩ := h id field r hid hr
  have hk : k < log.length := (List.getElem?_eq_some_iff.mp hk).1
  have hsum : base.toNat + k < 2 ^ 32 := (Nat.add_lt_add_left hk _).trans_le hlength
  have hlt : k < UInt32.size := (Nat.le_add_left k _).trans_lt hsum
  have htoNat : r.id.toNat = base.toNat + k := by
    rw [hnumber, UInt32.toNat_add, UInt32.toNat_ofNat_of_lt' hlt, Nat.mod_eq_of_lt hsum]
  omega

end Numbers

/-! ## Counting fields -/

/-- How many fields the scopes from `start` on have. -/
def fieldCount (t : SymbolTable) (start : ScopeId) : Nat :=
  ((t.scopes.drop start).map fun s => s.fields.length).sum

theorem fieldCount_of_le (h : t.scopeCount ≤ start) : t.fieldCount start = 0 := by
  unfold fieldCount
  rw [List.drop_eq_nil_of_le h]
  rfl

theorem fieldCount_eq_add {s : Scope} (hs : t.scope? start = some s) :
    t.fieldCount start = s.fields.length + t.fieldCount (start + 1) := by
  obtain ⟨hstart, rfl⟩ := List.getElem?_eq_some_iff.mp hs
  unfold fieldCount
  rw [List.drop_eq_getElem_cons hstart, List.map_cons, List.sum_cons]

theorem fieldCount_modifyScope {changed : ScopeId} (h : changed < start) (f : Scope → Scope) :
    (t.modifyScope changed f).fieldCount start = t.fieldCount start := by
  unfold fieldCount modifyScope
  rw [List.drop_modify_of_lt _ _ _ _ h]

theorem Grows.fieldCount (h : t.Grows u) (hstart : start ≤ t.scopeCount) :
    u.fieldCount start = t.fieldCount start + u.fieldCount t.scopeCount := by
  have hsplit : u.scopes = t.scopes ++ u.scopes.drop t.scopeCount := by
    have htake : u.scopes.take t.scopeCount = t.scopes := congrArg SymbolTable.scopes h.truncate
    rw [← htake, List.take_append_drop]
  unfold SymbolTable.fieldCount
  conv_lhs => rw [hsplit]
  rw [List.drop_append_of_le_length hstart, List.map_append, List.sum_append]

theorem CopiedField.ty_eq {base typeScope id : Nat} {field : String} {ty : Ty}
    {entry : Option Entry} (h : CopiedField t after base typeScope id field ty entry) :
    (entry.bind Entry.var?).map Variable.ty = some ty := by
  cases h <;> rfl

/-- A copy has the fields of its prototype. -/
theorem CopyOf.fields_eq {base proto parent id : Nat} {name : String} {p s : Scope}
    (h : CopyOf t after base proto name parent id) (hp : t.scope? proto = some p)
    (hs : after.scope? id = some s) : s.fields = p.fields := by
  obtain ⟨laidOut, found, -, -, -, names, -, fields, others⟩ := h
  rw [hp] at laidOut
  cases laidOut
  rw [hs] at found
  cases found
  refine Scope.fields_congr names ?_
  intro field
  cases hv : p.var? field with
  | none =>
    unfold Scope.var?
    rw [others field hv]
    rfl
  | some v => exact (fields field v hv).ty_eq

end SymbolTable

/-! ## The construction draws one register for each field -/

namespace Instance
open SymbolTable (CopyOf Filling Logged)
variable {t : SymbolTable} {st mid after : State}

/-- From `st` on, one register was drawn for each field of the new scopes. -/
def Numbered (st after : State) : Prop :=
  ∃ log, after.symbols.Logged st.symbols.scopeCount st.vregs.drawn log ∧
    after.vregs.drawn = st.vregs.drawn + UInt32.ofNat log.length ∧
    log.length = after.symbols.fieldCount st.symbols.scopeCount

theorem Numbered.refl (st : State) : Numbered st st := by
  refine ⟨[], SymbolTable.logged_nil _ _, (add_zero _).symm, ?_⟩
  rw [SymbolTable.fieldCount_of_le le_rfl]
  rfl

/-- From `st` on, one register was drawn for each field in `done` of the next scope and for each
field of the scopes after it. -/
def Numbering (st : State) (done : List (String × Ty)) (mid : State) : Prop :=
  ∃ log, mid.symbols.Logged st.symbols.scopeCount st.vregs.drawn log ∧
    mid.vregs.drawn = st.vregs.drawn + UInt32.ofNat log.length ∧
    log.length = done.length + mid.symbols.fieldCount (st.symbols.scopeCount + 1)

theorem numbering_push (st : State) (parent : ScopeId) (name : String) :
    Numbering st [] (st.push parent name) := by
  refine ⟨[], SymbolTable.logged_pushScope _ _ _ _, (add_zero _).symm, ?_⟩
  rw [SymbolTable.fieldCount_of_le]
  · rfl
  · rw [State.push, SymbolTable.scopeCount_pushScope]

/-- One more field draws its register first, and then those of its instance. -/
theorem Numbering.bind {done : List (String × Ty)} (h : Numbering st done mid)
    (hroom : st.symbols.scopeCount < mid.symbols.scopeCount)
    (hgrows : mid.symbols.Grows after.symbols) (hafter : Numbered mid.drawn after) (field : String)
    (ty : Ty) (fields : Option ScopeId) :
    Numbering st (done ++ [(field, ty)])
      (after.bindVar st.symbols.scopeCount field ty ⟨mid.vregs.drawn⟩ fields) := by
  obtain ⟨log, hlog, hdrawn, hlength⟩ := h
  obtain ⟨inner, hinner, hinnerDrawn, hinnerLength⟩ := hafter
  -- the place of the field is logged before the scopes under it exist
  let place := (st.symbols.scopeCount, field)
  have hnext : mid.drawn.vregs.drawn = st.vregs.drawn + UInt32.ofNat (log ++ [place]).length := by
    rw [List.length_append, List.length_singleton, UInt32.ofNat_add, ← UInt32.add_assoc, ← hdrawn]
    rfl
  have hall : after.symbols.Logged st.symbols.scopeCount st.vregs.drawn (log ++ [place] ++ inner) :=
    (hlog.extend [place]).append hgrows (hnext ▸ hinner)
  have hplace : (log ++ [place] ++ inner)[log.length]? = some place := by simp
  refine ⟨log ++ [place] ++ inner, hall.bind hplace hdrawn, ?_, ?_⟩
  · show after.vregs.drawn = _
    have hsum : (log ++ [place] ++ inner).length = (log ++ [place]).length + inner.length :=
      List.length_append
    rw [hinnerDrawn, hnext, hsum, UInt32.ofNat_add, UInt32.add_assoc]
  · have hsplit : after.symbols.fieldCount (st.symbols.scopeCount + 1)
        = mid.symbols.fieldCount (st.symbols.scopeCount + 1)
          + after.symbols.fieldCount mid.symbols.scopeCount := hgrows.fieldCount hroom
    have hinner : inner.length = after.symbols.fieldCount mid.symbols.scopeCount := hinnerLength
    unfold State.bindVar State.modify
    rw [SymbolTable.fieldCount_modifyScope (Nat.lt_succ_self _), hsplit]
    simp only [List.length_append, List.length_singleton]
    omega

theorem numbering_copyField (sound : t.Sound) {proto : ScopeId} {p : Scope}
    {done : List (String × Ty)} {field : String} {v : Variable} {nested : Builder}
    (hmid : t.Grows mid.symbols) (hroom : st.symbols.scopeCount < mid.symbols.scopeCount)
    (hp : t.scope? proto = some p) (h : Numbering st done mid)
    (hnested : ∀ q, q < t.scopeCount → Promises (nested q field st.symbols.scopeCount) mid.drawn
      (fun _ after => mid.symbols.Grows after.symbols ∧ Numbered mid.drawn after)
      (fun _ _ => True)) :
    Promises (copyField nested (p.parent.getD globalScope) st.symbols.scopeCount field v.ty) mid
      (fun _ after => Numbering st (done ++ [(field, v.ty)]) after) (fun _ _ => True) := by
  refine promises_copyField sound hmid hp ?_ ?_ (fun _ _ _ => trivial)
  · intro _
    have hgrows : mid.symbols.Grows mid.drawn.symbols := SymbolTable.Grows.refl mid.symbols
    exact h.bind hroom hgrows (Numbered.refl mid.drawn) field v.ty none
  · intro typeName name q vreg _ hfound
    have hq : q < t.scopeCount := SymbolTable.isSome_scope?.mp (sound.lookup? hfound)
    refine (hnested q hq).mono ?_ (fun _ _ h => h)
    rintro inner after ⟨hgrows, hnumbered⟩
    exact h.bind hroom hgrows hnumbered field v.ty (some inner)

/-- Once all fields of the prototype are copied, every register counts. -/
theorem Numbering.numbered {p : Scope} {proto parent : ScopeId} {name : String}
    (h : Numbering st p.fields after)
    (hfilling : Filling t p st.symbols.scopeCount name parent p.fields after.symbols)
    (hp : t.scope? proto = some p) :
    Numbered st (after.modify st.symbols.scopeCount (·.takeOrder p)) := by
  obtain ⟨log, hlog, hdrawn, hlength⟩ := h
  refine ⟨log, hlog.modifyScope _ fun _ => rfl, hdrawn, ?_⟩
  have hcopy := hfilling.copyOf hp
  obtain ⟨s, hs, -⟩ := hfilling
  have hstart : (after.symbols.modifyScope st.symbols.scopeCount fun s =>
      s.takeOrder p).scope? st.symbols.scopeCount
        = some (s.takeOrder p) := by
    rw [SymbolTable.scope?_modifyScope, if_pos rfl, hs]
    rfl
  unfold State.modify
  rw [SymbolTable.fieldCount_eq_add hstart, hcopy.fields_eq hp hstart, hlength,
    SymbolTable.fieldCount_modifyScope (Nat.lt_succ_self _)]

/-- The fields of a prototype draw their registers one after another. -/
theorem numbering_fields (sound : t.Sound) (depth : Nat) (names : List String) (name : String)
    {proto parent : ScopeId} {p : Scope} (hst : t.Grows st.symbols)
    (hparent : parent < st.symbols.scopeCount) (hp : t.scope? proto = some p)
    (hnested : PromisesNested t depth names fun _ _ _ st _ after => Numbered st after) :
    Promises (copyFields depth names p st.symbols.scopeCount) (st.push parent name)
      (fun _ after => Numbering st p.fields after) (fun _ _ => True) := by
  refine promises_fields hst hparent (Numbering st) (numbering_push st parent name) ?_
  intro done field v mid hv hmid hroom h
  refine numbering_copyField sound hmid hroom hp h ?_
  intro q hq
  exact ((grows_build depth names q field mid.drawn hroom).and
    (hnested q field _ mid.drawn hq hmid hroom)).mono (fun _ _ h => h) (fun _ _ _ => trivial)

theorem numbered_build (sound : t.Sound) (depth : Nat) (names : List String) (proto : ScopeId)
    (name : String) {parent : ScopeId} (st : State) (hproto : st.symbols.scope? proto = t.scope? proto)
    (hst : t.Grows st.symbols) (hparent : parent < st.symbols.scopeCount) :
    Promises (build depth names proto name parent) st (fun _ after => Numbered st after)
      (fun _ _ => True) := by
  refine promises_build_of_fields (fun _ _ _ st _ after => Numbered st after) ?_ depth names proto
    name st hproto hst hparent
  intro depth names proto p name parent st hp hst hparent hnested
  have hfilling := filling_fields sound depth names name hst hparent hp fun q field _ mid hq hmid =>
    copied_build sound depth names q field mid (hmid.scope?_eq hq) hmid
  have hnumbering := numbering_fields sound depth names name hst hparent hp hnested
  refine (hfilling.and hnumbering).mono ?_ (fun _ _ _ => trivial)
  rintro _ after ⟨hfilled, hnumbered⟩
  exact hnumbered.numbered hfilled hp

end Instance

namespace SymbolTable
variable {t after : SymbolTable} {proto parent id : ScopeId} {name : String}
  {vregs vregs' : VRegSupply}

/-- An instance is a copy of its prototype: the old scopes stay, one register is drawn for each field
of the new ones, and no two of their variables share one. -/
theorem copyOf_instantiate (sound : t.Sound) (hparent : (t.scope? parent).isSome)
    (built : t.instantiate proto name parent vregs = (.ok id, after, vregs')) :
    (∀ old s, t.scope? old = some s → after.scope? old = some s) ∧
    id = t.scopeCount ∧ CopyOf t after t.scopeCount proto name parent id ∧
    vregs'.drawn = vregs.drawn + UInt32.ofNat (after.fieldCount t.scopeCount) ∧
    (after.fieldCount t.scopeCount ≤ 2 ^ 32 → ∀ inner field inner' field' r,
      t.scopeCount ≤ inner → after.Holds inner field r → t.scopeCount ≤ inner' →
      after.Holds inner' field' r → inner = inner' ∧ field = field') ∧
    (vregs.drawn.toNat + after.fieldCount t.scopeCount ≤ 2 ^ 32 → ∀ inner field r,
      t.scopeCount ≤ inner → after.Holds inner field r →
      vregs.drawn.toNat ≤ r.id.toNat ∧
        r.id.toNat < vregs.drawn.toNat + after.fieldCount t.scopeCount) := by
  have hroom : parent < t.scopeCount := isSome_scope?.mp hparent
  have hgrows := (grows_instantiate hroom proto name vregs).1
  have hcopied := Instance.copied_build sound t.nestingBound [] proto name ⟨t, vregs⟩ rfl (.refl t)
    hroom
  have hnumbered := Instance.numbered_build sound t.nestingBound [] proto name ⟨t, vregs⟩ rfl
    (.refl t) hroom
  rw [built] at hgrows
  rcases instantiateWithin_of_promises (hcopied.and hnumbered) with
    ⟨id', after', vregs'', hrun, ⟨hid, hcopy⟩, log, hlog, hdrawn, hlength⟩ | ⟨reason, st, hrun, -⟩
  · rw [instantiate, hrun] at built
    cases built
    subst hid
    rw [← hlength]
    refine ⟨hgrows.kept, rfl, hcopy, hdrawn, ?_, ?_⟩
    · intro hlength inner field inner' field' r hinner hr hinner' hr'
      exact hlog.distinct hlength hinner hr hinner' hr'
    · intro hlength inner field r hinner hr
      exact hlog.fresh hlength hinner hr
  · rw [instantiate, hrun] at built
    cases reason <;> cases built

/-- A struct type `Line` whose field `Point` is ordered twice and is a struct, with the layouts 1 and
2. -/
def lineLayouts : SymbolTable :=
  ⟨[⟨none, globalScopeName, (NameMap.empty.insert "Line" (.struct "Line" 2 ⟨0⟩)).insert "Point"
      (.struct "Point" 1 ⟨1⟩), [], []⟩,
    ⟨some 0, "Point", NameMap.empty.insert "x" (.var ⟨.int, some "1", ⟨2⟩, none⟩), [], []⟩,
    ⟨some 0, "Line", (NameMap.empty.insert "Point" (.var ⟨.struct "Point", none, ⟨3⟩, none⟩)).insert
      "width" (.var ⟨.int, none, ⟨4⟩, none⟩),
      ["Point", "Point"], [.struct "Point", .struct "Point"]⟩]⟩

def withLine : SymbolTable := (lineLayouts.instantiate 2 "l" globalScope ⟨5⟩).2.1

theorem copyOf_lineLayouts :
    lineLayouts.Sound ∧ (lineLayouts.scope? globalScope).isSome = true ∧
      lineLayouts.instantiate 2 "l" globalScope ⟨5⟩ = (.ok 3, withLine, ⟨10⟩) ∧
      CopyOf lineLayouts withLine 3 2 "l" globalScope 3 ∧ withLine.fieldCount 3 = 5 ∧
      (∀ inner field inner' field' r, 3 ≤ inner → withLine.Holds inner field r → 3 ≤ inner' →
        withLine.Holds inner' field' r → inner = inner' ∧ field = field') ∧
      ∀ inner field r, 3 ≤ inner → withLine.Holds inner field r →
        5 ≤ r.id.toNat ∧ r.id.toNat < 5 + withLine.fieldCount 3 := by
  have sound : lineLayouts.Sound := by decide +kernel
  have built : lineLayouts.instantiate 2 "l" globalScope ⟨5⟩ = (.ok 3, withLine, ⟨10⟩) := by
    refine Prod.ext ?_ (Prod.ext rfl ?_)
    · decide +kernel
    · decide +kernel
  have count : withLine.fieldCount 3 = 5 := by decide +kernel
  obtain ⟨-, -, copy, -, distinct, fresh⟩ := copyOf_instantiate sound rfl built
  have small : withLine.fieldCount 3 ≤ 2 ^ 32 := by
    rw [count]
    decide
  have room : 5 + withLine.fieldCount 3 ≤ 2 ^ 32 := by
    rw [count]
    decide
  exact ⟨sound, rfl, built, copy, count, distinct small, fresh room⟩

end SymbolTable
end A64Lowering
