import Mathlib
import A64Lowering.Session
import A64Lowering.Proofs.Symbol.Storage

/-! # The registers of a session

* `VRegSupply.Draws`: which registers a supply hands out on the way to another one. `Draws.nodup`:
  they differ as long as the identifiers do not run out.
* `Ir.Draft.Call`: what adds to a fragment under construction. `Call.draws`, `draws_mapM_run`: the
  registers that come back are those that the supply hands out.
* `Ledger`: a session and the registers it has drawn. `Ledger.Work`: what may be done with it.
* `Ledger.Accounted`: the ledger agrees with the session. `Accounted.work`: it does so after each
  piece of work.
* `Ledger.registers_unique`: no register of a session has two uses. -/
namespace A64Lowering
set_option autoImplicit false

/-! ## Drawing many registers -/

namespace VRegSupply

/-- The next `count` registers, and the supply without them. -/
def drawMany (s : VRegSupply) : (count : Nat) → List VReg × VRegSupply
  | 0 => ([], s)
  | count + 1 => (s.draw.1 :: (s.draw.2.drawMany count).1, (s.draw.2.drawMany count).2)

theorem drawMany_snd (count : Nat) (s : VRegSupply) :
    (s.drawMany count).2 = ⟨s.next + .ofNat count⟩ := by
  induction count generalizing s with
  | zero => exact congrArg VRegSupply.mk (UInt32.add_zero s.next).symm
  | succ count ih =>
    show (s.draw.2.drawMany count).2 = _
    rw [ih, Nat.add_comm, UInt32.ofNat_add, ← UInt32.add_assoc]
    rfl

theorem length_drawMany (count : Nat) (s : VRegSupply) : (s.drawMany count).1.length = count := by
  induction count generalizing s with
  | zero => rfl
  | succ count ih => exact congrArg Nat.succ (ih s.draw.2)

theorem drawMany_add (m n : Nat) (s : VRegSupply) :
    s.drawMany (m + n) = ((s.drawMany m).1 ++ ((s.drawMany m).2.drawMany n).1,
      ((s.drawMany m).2.drawMany n).2) := by
  induction m generalizing s with
  | zero =>
    rw [Nat.zero_add]
    rfl
  | succ m ih =>
    rw [Nat.succ_add]
    show (s.draw.1 :: (s.draw.2.drawMany (m + n)).1, (s.draw.2.drawMany (m + n)).2) = _
    rw [ih]
    rfl

/-- These are the registers that the supply hands out on the way to `after`. -/
def Draws (s : VRegSupply) (registers : List VReg) (after : VRegSupply) : Prop :=
  s.drawMany registers.length = (registers, after)

theorem draws_nil (s : VRegSupply) : s.Draws [] s := rfl

theorem draws_singleton (s : VRegSupply) : s.Draws [s.draw.1] s.draw.2 := rfl

theorem draws_drawMany (s : VRegSupply) (count : Nat) :
    s.Draws (s.drawMany count).1 (s.drawMany count).2 := by
  rw [Draws, length_drawMany]

namespace Draws
variable {s mid after : VRegSupply} {registers more : List VReg}

theorem append (h : s.Draws registers mid) (h' : mid.Draws more after) :
    s.Draws (registers ++ more) after := by
  rw [Draws] at h h'
  rw [Draws, List.length_append, drawMany_add, h, h']

theorem toNat_drawn (h : s.Draws registers after)
    (room : s.drawn.toNat + registers.length < UInt32.size) :
    after.drawn.toNat = s.drawn.toNat + registers.length := by
  have hafter := drawMany_snd registers.length s
  rw [show s.drawMany registers.length = (registers, after) from h] at hafter
  rw [show after = _ from hafter, drawn, UInt32.toNat_add, UInt32.toNat_ofNat_of_lt' (by omega)]
  exact Nat.mod_eq_of_lt room

theorem tail {r : VReg} (h : s.Draws (r :: registers) after) : s.draw.2.Draws registers after := by
  obtain ⟨hregisters, hafter⟩ := Prod.mk.inj h
  exact Prod.ext (List.cons.inj hregisters).2 hafter

theorem head_eq {r : VReg} (h : s.Draws (r :: registers) after) : r = s.draw.1 :=
  (List.cons.inj (Prod.mk.inj h).1).1.symm

theorem toNat_le (h : s.Draws registers after)
    (room : s.drawn.toNat + registers.length < UInt32.size) {r : VReg} (hr : r ∈ registers) :
    s.drawn.toNat ≤ r.id.toNat := by
  induction registers generalizing s with
  | nil => cases hr
  | cons first rest ih =>
    rw [List.length_cons] at room
    rcases List.mem_cons.mp hr with rfl | hrest
    · exact h.head_eq ▸ le_rfl
    · have hnext := toNat_drawn_draw s (by omega)
      have hle := ih h.tail (by omega) hrest
      omega

theorem nodup (h : s.Draws registers after)
    (room : s.drawn.toNat + registers.length < UInt32.size) : registers.Nodup := by
  induction registers generalizing s with
  | nil => exact List.nodup_nil
  | cons first rest ih =>
    rw [List.length_cons] at room
    have hnext := toNat_drawn_draw s (by omega)
    refine List.nodup_cons.mpr ⟨?_, ih h.tail (by omega)⟩
    intro hmem
    have hle := h.tail.toNat_le (by omega) hmem
    rw [hnext, h.head_eq] at hle
    exact Nat.lt_irrefl _ hle

end Draws
end VRegSupply

/-- All registers drawn may be reserved. -/
theorem SymbolTable.Tidy.draws {t : SymbolTable} {vregs after : VRegSupply}
    {reserved registers : List VReg} (h : t.Tidy vregs reserved)
    (drawn : vregs.Draws registers after)
    (room : vregs.drawn.toNat + registers.length < UInt32.size) :
    t.Tidy after (reserved ++ registers) := by
  induction registers generalizing vregs reserved with
  | nil =>
    obtain rfl := (Prod.mk.inj drawn).2
    rw [List.append_nil]
    exact h
  | cons r registers ih =>
    rw [List.length_cons] at room
    have hnext := VRegSupply.toNat_drawn_draw vregs (by omega)
    have hdraw : t.Tidy vregs.draw.2 (r :: reserved) := drawn.head_eq ▸ h.draw (by omega)
    exact (ih hdraw drawn.tail (by omega)).perm List.perm_middle.symm

theorem Instance.Builds.draws {nesting draws : Nat} {names : List String} {proto parent : ScopeId}
    {name : String} {result : Except StructFault ScopeId} {st after : State}
    (h : Builds nesting draws names proto name parent st result after) :
    st.vregs.Draws (st.vregs.drawMany draws).1 after.vregs := by
  have hafter : after.vregs = (st.vregs.drawMany draws).2 := by
    rw [VRegSupply.drawMany_snd]
    exact congrArg VRegSupply.mk h.drawn
  rw [hafter]
  exact st.vregs.draws_drawMany draws

/-! ## Fragments -/

namespace Ir.Draft

/-- What adds to a fragment under construction. -/
inductive Call where
  | param
  | bindParam (r : VReg)
  | freshLabel
  | push (inst : Instruction)
  | mov (operand : Operand)
  | binary (op : BinaryOp) (lhs : VReg) (rhs : Operand)
  | unary (op : UnaryOp) (source : VReg)
  | compare (cond : CompareOp) (lhs : VReg) (rhs : Operand)
  | loadGlobal (name : String)
  | loadField (base : VReg) (field : String) (index : UInt64)
  | newObject (typeName : String) (size : UInt64)
  | call (function : String) (args : List VReg)

namespace Call

/-- The step, with the register that it draws for its value. -/
def run : Call → Step (Option VReg)
  | param => some <$> Draft.param
  | bindParam r => (fun _ => none) <$> Draft.bindParam r
  | freshLabel => (fun _ => none) <$> Draft.freshLabel
  | push inst => (fun _ => none) <$> Draft.push inst
  | mov operand => some <$> Draft.mov operand
  | binary op lhs rhs => some <$> Draft.binary op lhs rhs
  | unary op source => some <$> Draft.unary op source
  | compare cond lhs rhs => some <$> Draft.compare cond lhs rhs
  | loadGlobal name => some <$> Draft.loadGlobal name
  | loadField base field index => some <$> Draft.loadField base field index
  | newObject typeName size => some <$> Draft.newObject typeName size
  | call function args => some <$> Draft.call function args

theorem draws (c : Call) (d : Draft) : d.vregs.Draws (c.run d).1.toList (c.run d).2.vregs := by
  cases c with
  | bindParam r => exact d.vregs.draws_nil
  | freshLabel => exact d.vregs.draws_nil
  | push inst => exact d.vregs.draws_nil
  | _ => exact d.vregs.draws_singleton

/-- All calls in order, with the registers that they draw. -/
def runAll : List Call → Step (List VReg)
  | [] => return []
  | c :: calls => do
    let first ← c.run
    let others ← runAll calls
    return first.toList ++ others

theorem draws_runAll (calls : List Call) (d : Draft) :
    d.vregs.Draws (runAll calls d).1 (runAll calls d).2.vregs := by
  induction calls generalizing d with
  | nil => exact d.vregs.draws_nil
  | cons c calls ih => exact (c.draws d).append (ih (c.run d).2)

end Call
end Ir.Draft

/-! ## Sessions -/

open Ir (Draft Fragment)
open Instance (Builds State)

/-- A session, and what became of the registers that it drew since it last was empty. -/
structure Ledger where
  session : Session
  /-- All registers drawn, in order. -/
  drawn : List VReg
  /-- Those of entries that are not bound yet. -/
  pending : List VReg
  /-- Those that went into a fragment. -/
  drafted : List VReg

namespace Ledger

def start (settings : Settings) : Ledger := ⟨.start settings, [], [], []⟩

def symbols (l : Ledger) : SymbolTable := l.session.symbols

def vregs (l : Ledger) : VRegSupply := l.session.vregs

def withSymbols (l : Ledger) (symbols : SymbolTable) : Ledger :=
  { l with session := { l.session with symbols } }

/-- One piece of work on a session. -/
inductive Work (l : Ledger) : Ledger → Prop where
  | pushScope (parent : ScopeId) (name : String) :
      Work l (l.withSymbols (l.symbols.pushScope parent name).2)
  /-- An entry is made, for a variable or a struct type, and draws its register. -/
  | entry :
      Work l { l with
        session := { l.session with vregs := l.vregs.draw.2 }
        drawn := l.drawn ++ [l.vregs.draw.1]
        pending := l.vregs.draw.1 :: l.pending }
  /-- An entry that was made is bound. -/
  | insert (scope : ScopeId) (name : String) (entry : Entry) {r : VReg}
      (stored : entry.vreg? = some r) (made : r ∈ l.pending) :
      Work l { l.withSymbols (l.symbols.insert scope name entry) with pending := l.pending.erase r }
  | insertFunction (scope : ScopeId) (name : String) (returnType : Ty) (body : ScopeId) :
      Work l (l.withSymbols (l.symbols.insert scope name (.function returnType body)))
  /-- A parameter of a function or a field of a struct. -/
  | declare (scope : ScopeId) (name : String) (ty : Ty) {r : VReg} {symbols : SymbolTable}
      {vregs : VRegSupply}
      (declared : l.symbols.declare scope name ty l.vregs = some (r, symbols, vregs)) :
      Work l { l with
        session := { l.session with symbols, vregs }
        drawn := l.drawn ++ [r] }
  /-- A variable is changed in place, but for its register. -/
  | update (scope : ScopeId) (name : String) {change : Variable → Variable}
      (same : ∀ v, (change v).vreg = v.vreg) :
      Work l (l.withSymbols (l.symbols.updateVariable scope name change))
  /-- An instance is built or has a fault, and draws as many registers as its construction. -/
  | instantiate (proto : ScopeId) (name : String) (parent : ScopeId) {draws : Nat}
      {result : Except StructFault ScopeId} {last : State}
      (built : Builds l.symbols.nestingBound draws [] proto name parent ⟨l.symbols, l.vregs⟩ result
        last) :
      Work l { l with
        session := (l.session.instantiate proto name parent).2
        drawn := l.drawn ++ (l.vregs.drawMany draws).1 }
  | draft (label : String) (calls : List Draft.Call) {registers : List VReg} {frag : Fragment}
      {session : Session}
      (drafted : l.session.draft label (Draft.Call.runAll calls) = (registers, frag, session)) :
      Work l { l with
        session
        drawn := l.drawn ++ registers
        drafted := l.drafted ++ registers }
  | reset : Work l ⟨l.session.reset, [], [], []⟩

/-- The registers drawn are those that the supply has handed out. As long as there are enough, the
table is tidy, and no name has a register that is pending or went into a fragment. -/
structure Accounted (l : Ledger) : Prop where
  draws : VRegSupply.fresh.Draws l.drawn l.vregs
  tidy : l.drawn.length < UInt32.size → l.symbols.Tidy l.vregs (l.pending ++ l.drafted)

namespace Accounted
variable {l l' : Ledger}

theorem start (settings : Settings) : (Ledger.start settings).Accounted :=
  ⟨VRegSupply.fresh.draws_nil, fun _ => SymbolTable.Tidy.initial⟩

theorem room (few : l.drawn.length < UInt32.size) :
    VRegSupply.fresh.drawn.toNat + l.drawn.length < UInt32.size := by
  rwa [show VRegSupply.fresh.drawn.toNat = 0 from rfl, Nat.zero_add]

theorem toNat_drawn (h : l.Accounted) (few : l.drawn.length < UInt32.size) :
    l.vregs.drawn.toNat = l.drawn.length :=
  (h.draws.toNat_drawn (room few)).trans (Nat.zero_add _)

theorem nodup (h : l.Accounted) (few : l.drawn.length < UInt32.size) : l.drawn.Nodup :=
  h.draws.nodup (room few)

theorem unbound_of_drafted (h : l.Accounted) (few : l.drawn.length < UInt32.size) {r : VReg}
    (hr : r ∈ l.drafted) (id : ScopeId) (name : String) : l.symbols.storage? id name ≠ some r :=
  (h.tidy few).unused r (List.mem_append_right l.pending hr) id name

/-- Some registers are drawn, and then the table is tidy again. -/
theorem append (h : l.Accounted) {registers : List VReg}
    (hdrawn : l'.drawn = l.drawn ++ registers) (hdraws : l.vregs.Draws registers l'.vregs)
    (htidy : l.symbols.Tidy l.vregs (l.pending ++ l.drafted) →
      l.vregs.drawn.toNat + registers.length < UInt32.size →
      l'.symbols.Tidy l'.vregs (l'.pending ++ l'.drafted)) : l'.Accounted := by
  refine ⟨hdrawn ▸ h.draws.append hdraws, ?_⟩
  intro few
  rw [hdrawn, List.length_append] at few
  have few' : l.drawn.length < UInt32.size := by omega
  exact htidy (h.tidy few') (by rw [h.toNat_drawn few']; exact few)

theorem work (h : l.Accounted) (hwork : Work l l') : l'.Accounted := by
  cases hwork with
  | pushScope parent name =>
    exact ⟨h.draws, fun few => (h.tidy few).of_storage fun _ _ _ =>
      SymbolTable.storage?_of_pushScope⟩
  | entry =>
    refine h.append rfl l.vregs.draws_singleton ?_
    exact fun tidy room => tidy.draw room
  | @insert scope name entry r stored made =>
    -- the register goes over from the pending ones to the table
    refine ⟨h.draws, fun few => ?_⟩
    have hperm := ((List.perm_cons_erase made).append_right l.drafted)
    exact ((h.tidy few).perm hperm).bind stored fun _ => rfl
  | insertFunction scope name returnType body =>
    refine ⟨h.draws, fun few => (h.tidy few).of_storage ?_⟩
    intro id other r hr
    rcases SymbolTable.storage?_of_bind (fun _ => rfl) hr with ⟨-, -, hnone⟩ | hold
    · cases hnone
    · exact hold
  | declare scope name ty declared =>
    obtain ⟨s, -, hdeclared⟩ := Option.map_eq_some_iff.mp declared
    cases hdeclared
    refine h.append rfl l.vregs.draws_singleton ?_
    exact fun tidy room => (tidy.draw room).bind rfl fun _ => rfl
  | update scope name same =>
    exact ⟨h.draws, fun few => (h.tidy few).of_storage fun _ _ _ =>
      SymbolTable.storage?_of_updateVariable same⟩
  | @instantiate proto name parent draws result last built =>
    have hdraws : l.vregs.Draws (l.vregs.drawMany draws).1
        (l.symbols.instantiate proto name parent l.vregs).2.2 := by
      rw [SymbolTable.instantiate_eq_of_builds built le_rfl]
      exact built.draws
    refine h.append rfl hdraws ?_
    intro tidy room
    rw [VRegSupply.length_drawMany] at room
    exact tidy.instantiate built room
  | draft label calls drafted =>
    have hdraws := Draft.Call.draws_runAll calls (Draft.start label l.vregs)
    cases drafted
    refine h.append rfl hdraws ?_
    intro tidy room
    show l.symbols.Tidy _ (l.pending ++ (l.drafted ++ _))
    rw [← List.append_assoc]
    exact tidy.draws hdraws room
  | reset => exact start l.session.settings

end Accounted

/-- Some pieces of work, one after another, lead to this ledger from one in which nothing is
drawn. -/
def Reached (l : Ledger) : Prop := ∃ settings, Relation.ReflTransGen Work (start settings) l

theorem Reached.work {l l' : Ledger} (h : l.Reached) (hwork : Work l l') : l'.Reached :=
  h.imp fun _ hstart => .tail hstart hwork

theorem accounted_of_reached {l : Ledger} (reached : l.Reached) : l.Accounted := by
  obtain ⟨settings, hwork⟩ := reached
  induction hwork with
  | refl => exact Accounted.start settings
  | tail _ hwork ih => exact ih.work hwork

/-- As long as the identifiers do not run out, no register of a session has two uses: no two names
of the table share one, and no name has one that went into a fragment. All of them are below the
count of the supply, and those that a new fragment draws are new. -/
theorem registers_unique {l : Ledger} (reached : l.Reached)
    (few : l.drawn.length < UInt32.size) :
    (∀ id id' name name' r, l.symbols.storage? id name = some r →
      l.symbols.storage? id' name' = some r → id = id' ∧ name = name') ∧
    (∀ id name r, l.symbols.storage? id name = some r → r.id < l.vregs.drawn) ∧
    l.vregs.drawn.toNat = l.drawn.length ∧ l.drawn.Nodup ∧
    (∀ r ∈ l.drafted, ∀ id name, l.symbols.storage? id name ≠ some r) ∧
    (∀ label calls registers frag after,
      l.session.draft label (Draft.Call.runAll calls) = (registers, frag, after) →
      l.drawn.length + registers.length < UInt32.size →
      (l.drawn ++ registers).Nodup ∧
        ∀ r ∈ registers, ∀ id name, after.symbols.storage? id name ≠ some r) := by
  have accounted : l.Accounted := accounted_of_reached reached
  have tidy : l.symbols.Tidy l.vregs (l.pending ++ l.drafted) := accounted.tidy few
  refine ⟨tidy.apart, tidy.drawn, accounted.toNat_drawn few, accounted.nodup few,
    fun r hr => accounted.unbound_of_drafted few hr, ?_⟩
  intro label calls registers frag after drafted few'
  -- what holds of all registers drawn holds of those that the next fragment draws
  have accounted' := accounted.work (.draft label calls drafted)
  have hlength : (l.drawn ++ registers).length < UInt32.size := by
    rw [List.length_append]
    exact few'
  refine ⟨accounted'.nodup hlength, fun r hr => ?_⟩
  exact accounted'.unbound_of_drafted hlength (List.mem_append_right l.drafted hr)

/-- Whether an instance is built or has a fault, asking for it is a piece of work. -/
theorem exists_work_instantiate (l : Ledger) (proto : ScopeId) (name : String) (parent : ScopeId) :
    ∃ l' : Ledger, Work l l' ∧ l'.session = (l.session.instantiate proto name parent).2 := by
  obtain ⟨draws, result, last, built⟩ :=
    SymbolTable.exists_builds_nestingBound l.symbols proto name parent l.vregs
  exact ⟨_, .instantiate proto name parent built, rfl⟩

/-- A struct type `Point` with a field `x`, and a scope that lays out an `int` and something
unknown. -/
def pointTable : SymbolTable :=
  let point := (SymbolTable.initial.pushScope globalScope "Point").2.modifyScope 1
    (·.declare "x" ⟨.int, none, ⟨0⟩, none⟩)
  let node := ((point.insert globalScope "Point" (.struct "Point" 1 ⟨1⟩)).pushScope globalScope
    "Node").2
  (node.modifyScope 2 (·.declare "y" ⟨.int, none, ⟨2⟩, none⟩)).modifyScope 2
    (·.declare "next" ⟨.struct "Missing", none, ⟨3⟩, none⟩)

def pointDeclared : Ledger := ⟨⟨⟨4⟩, pointTable, .default⟩, [⟨0⟩, ⟨1⟩, ⟨2⟩, ⟨3⟩], [], []⟩

theorem reached_pointDeclared : pointDeclared.Reached := by
  have point := Reached.work (Reached.work ⟨.default, .refl⟩ (.pushScope globalScope "Point"))
    (.declare 1 "x" .int rfl)
  have bound := (point.work .entry).work (.insert globalScope "Point" (.struct "Point" 1 ⟨1⟩) rfl
    List.mem_cons_self)
  exact ((bound.work (.pushScope globalScope "Node")).work (.declare 2 "y" .int rfl)).work
    (.declare 2 "next" (.struct "Missing") rfl)

/-- An instance fails after two registers, another one is built, and a fragment draws two more. -/
theorem registers_unique_pointDeclared :
    ∃ l : Ledger, l.Reached ∧ l.drawn = (VRegSupply.fresh.drawMany 9).1 ∧
      l.drafted = [⟨7⟩, ⟨8⟩] ∧ l.symbols.storage? 1 "x" = some ⟨0⟩ ∧
      l.symbols.storage? 3 "x" = some ⟨6⟩ ∧ l.drawn.Nodup ∧
      ∀ r ∈ l.drafted, ∀ id name, l.symbols.storage? id name ≠ some r := by
  have hnode : (pointDeclared.symbols.scope? 2).map (fun s => (s.fields, s.parent))
      = some ([("y", .int), ("next", .struct "Missing")], some globalScope) := by decide +kernel
  obtain ⟨node, hnode, hlaidOut⟩ := Option.map_eq_some_iff.mp hnode
  obtain ⟨hfields, hparent⟩ := Prod.mk.inj hlaidOut
  have failed := reached_pointDeclared.work (.instantiate 2 "q" globalScope
    (.stopped hnode List.not_mem_nil (by
      rw [hfields, hparent]
      refine .plain rfl (.unknown ?_)
      intro _ _ _ h
      exact absurd (Option.isSome_of_mem h) (by decide +kernel))))
  let mid : Session := (pointDeclared.session.instantiate 2 "q" globalScope).2
  have hpoint : (mid.symbols.scope? 1).map Scope.fields = some [("x", .int)] := by decide +kernel
  obtain ⟨point, hpoint, hfields⟩ := Option.map_eq_some_iff.mp hpoint
  obtain ⟨last, hbuilds⟩ : ∃ last, Builds mid.symbols.nestingBound 1 [] 1 "p" globalScope
      ⟨mid.symbols, mid.vregs⟩ (.ok mid.symbols.scopeCount) last := by
    rw [SymbolTable.nestingBound, Nat.add_right_comm]
    exact ⟨_, .built hpoint List.not_mem_nil (by rw [hfields]; exact .plain rfl .done)⟩
  have built := failed.work (.instantiate 1 "p" globalScope hbuilds)
  have reached := built.work (.draft "f" [.param, .freshLabel, .binary .add ⟨7⟩ (.imm 1)] rfl)
  obtain ⟨-, -, -, nodup, unbound, -⟩ := registers_unique reached (by decide +kernel)
  exact ⟨_, reached, by decide +kernel, by decide +kernel, by decide +kernel, by decide +kernel,
    nodup, unbound⟩

end Ledger
end A64Lowering
