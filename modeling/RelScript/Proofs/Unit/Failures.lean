import RelScript.Proofs.Execution.Failures
import RelScript.Proofs.Unit.Isolation

/-!
How the failure of a scalar spreads. Whatever broadcasts a failed side input fails as well; and
along a chain of side inputs, each of which fails because the one before it has failed, all readers
get the error that the readers of the first one get.
-/

namespace RelScript

namespace PhysicalUnit

/-- The slots and the state when a side input begins: those of smaller numbers have run. -/
def begun (settings : RunSettings) (u : PhysicalUnit) (w : EngineState) (k : Nat) :
    List Slot × EngineState :=
  materializeAll settings (u.schedule.take k) [] w

/-- What the operators of a side input give when they run in their turn. -/
def sideInputRows (settings : RunSettings) (u : PhysicalUnit) (w : EngineState)
    (p : SideInputPlan) : Outcome Relation :=
  (p.plan.execute (settings.context (u.begun settings w p.id).1) []
    (u.begun settings w p.id).2).1

/-- A side input has failed: its slot holds the error. -/
def Failed (settings : RunSettings) (u : PhysicalUnit) (w : EngineState) (id : SideInputId)
    (e : Error) : Prop :=
  ∃ slot, (u.finalSlots settings w).find? (·.id = id) = some slot ∧ slot.state = .failed e

/-- A side input fails because another one has: its run stops where it resolves that one. -/
def Cancels (settings : RunSettings) (u : PhysicalUnit) (w : EngineState)
    (id next : SideInputId) : Prop :=
  ∃ p ∈ u.sideInputs, p.id = next ∧ p.plan.StopsAt (settings.context (u.begun settings w next).1)
    id [] (u.begun settings w next).2

/-- All readers of a side input get the error: a read of its slot in the end, the side inputs that
stop at it, and the outputs that do. -/
structure ReadersGet (settings : RunSettings) (u : PhysicalUnit) (w : EngineState)
    (id : SideInputId) (e : Error) : Prop where
  reads : (settings.context (u.finalSlots settings w)).read id = .error e
  sideInputs : ∀ p ∈ u.sideInputs, u.Cancels settings w id p.id →
    u.sideInputRows settings w p = .error e
  outputs : ∀ (k : Nat) (o : OutputPlan), u.outputs[k]? = some o →
    o.plan.StopsAt (settings.context (u.finalSlots settings w)) id []
      (u.stateBefore settings w k) → (u.runAll settings w).1[k]? = some (.error e)

/-- A run in which the failure of a scalar reaches everything that depends on it, always as the same
error. The error is the violated cardinality if the first side input violates it, and otherwise a
cancellation. -/
structure SpreadsFailures (u : PhysicalUnit) (settings : RunSettings) (w : EngineState) :
    Prop where
  sideInputs : ∀ p ∈ u.sideInputs, ∀ ids input, .broadcast ids input ∈ p.plan.nodes →
    ∀ id ∈ ids, ∀ e, u.Failed settings w id e →
      ∃ e', u.sideInputRows settings w p = .error e' ∧ u.Failed settings w p.id e'
  outputs : ∀ (k : Nat) (o : OutputPlan), u.outputs[k]? = some o →
    ∀ ids input, .broadcast ids input ∈ o.plan.nodes →
      ∀ id ∈ ids, ∀ e, u.Failed settings w id e →
        ∃ e', (u.runAll settings w).1[k]? = some (.error e')
  cardinality : ∀ p ∈ u.sideInputs, ∀ r, u.sideInputRows settings w p = .ok r → 2 ≤ r.size →
    u.Failed settings w p.id (.cardinality p.aliasName r.size)
  chains : ∀ first ∈ u.sideInputs, ∀ e, u.Failed settings w first.id e →
    ∀ rest, (first.id :: rest).IsChain (u.Cancels settings w) →
      (∀ id ∈ first.id :: rest, u.ReadersGet settings w id (e.forReader first.aliasName)) ∧
        ((∃ a rows, e = .cardinality a rows ∧
            e.forReader first.aliasName = .cardinality a rows) ∨
          (∀ a rows, e ≠ .cardinality a rows) ∧
            ∃ text, e.forReader first.aliasName = .cancelled text)

variable {u : PhysicalUnit} {settings : RunSettings} {w : EngineState}

theorem runAll_error {k : Nat} {o : OutputPlan} (ho : u.outputs[k]? = some o) {e : Error}
    (hrows : (o.plan.execute (settings.context (u.finalSlots settings w)) []
      (u.stateBefore settings w k)).1 = .error e) :
    (u.runAll settings w).1[k]? = some (.error e) := by
  rw [getElem?_runAll ho, OutputPlan.run_eq, hrows]
  rfl

namespace Ordered

theorem getElem?_id (h : u.Ordered) {p : SideInputPlan} (hp : p ∈ u.sideInputs) :
    u.sideInputs[p.id]? = some p := by
  obtain ⟨k, hk⟩ := List.getElem?_of_mem hp
  rw [h.numbered k p hk, hk]

theorem le_id_of_mem_drop (h : u.Ordered) {k : Nat} {p : SideInputPlan}
    (hp : p ∈ u.sideInputs.drop k) : k ≤ p.id := by
  obtain ⟨j, hj⟩ := List.getElem?_of_mem hp
  rw [List.getElem?_drop] at hj
  rw [h.numbered _ p hj]
  exact Nat.le_add_right k j

theorem finalSlots_eq (h : u.Ordered) (settings : RunSettings) (w : EngineState) (k : Nat) :
    u.finalSlots settings w = (materializeAll settings (u.sideInputs.drop k)
      (u.begun settings w k).1 (u.begun settings w k).2).1 := by
  rw [finalSlots, begun, h.schedule_eq, ← materializeAll_append, List.take_append_drop]

theorem find?_begun (h : u.Ordered) {id k : Nat} (hid : id < k) :
    (u.begun settings w k).1.find? (·.id = id) =
      (u.finalSlots settings w).find? (·.id = id) := by
  rw [h.finalSlots_eq settings w k, find?_materializeAll_of_ne]
  intro p hp
  exact (Nat.lt_of_lt_of_le hid (h.le_id_of_mem_drop hp)).ne

theorem find?_finalSlots (h : u.Ordered) {p : SideInputPlan} (hp : p ∈ u.sideInputs) :
    (u.finalSlots settings w).find? (·.id = p.id) =
      some (materialize settings p (u.begun settings w p.id).1 (u.begun settings w p.id).2).1 := by
  have hdrop : u.sideInputs.drop p.id = p :: u.sideInputs.drop (p.id + 1) := by
    obtain ⟨hlt, hget⟩ := List.getElem?_eq_some_iff.mp (h.getElem?_id hp)
    rw [List.drop_eq_getElem_cons hlt, hget]
  rw [h.finalSlots_eq settings w p.id, hdrop, materializeAll]
  dsimp only
  rw [find?_materializeAll_of_ne, find?_putSlot, id_materialize, if_pos rfl]
  intro q hq
  exact (Nat.lt_of_succ_le (h.le_id_of_mem_drop hq)).ne

theorem failed_of_error (h : u.Ordered) {p : SideInputPlan} (hp : p ∈ u.sideInputs) {e : Error}
    (hrows : u.sideInputRows settings w p = .error e) : u.Failed settings w p.id e := by
  refine ⟨_, h.find?_finalSlots hp, ?_⟩
  rw [state_materialize]
  exact congrArg (Slot.settled _) hrows

theorem failed_of_rows (h : u.Ordered) {p : SideInputPlan} (hp : p ∈ u.sideInputs) {r : Relation}
    (hrows : u.sideInputRows settings w p = .ok r) (hsize : 2 ≤ r.size) :
    u.Failed settings w p.id (.cardinality p.aliasName r.size) := by
  refine ⟨_, h.find?_finalSlots hp, ?_⟩
  rw [state_materialize]
  refine (congrArg (Slot.settled _) hrows).trans ?_
  rw [Slot.settled, Slot.outcome_of_rows _ r hsize]
  rfl

theorem read_failed (h : u.Ordered) {p : SideInputPlan} (hp : p ∈ u.sideInputs) {e : Error}
    (hfailed : u.Failed settings w p.id e) :
    (settings.context (u.finalSlots settings w)).read p.id =
      .error (e.forReader p.aliasName) := by
  obtain ⟨slot, hslot, hstate⟩ := hfailed
  have hname : slot.aliasName = p.aliasName := by
    rw [h.find?_finalSlots hp] at hslot
    cases hslot
    exact aliasName_materialize _ _ _ _
  rw [read_of_find? settings hslot hstate, hname]

theorem read_begun (h : u.Ordered) {id k : Nat} (hid : id < k) :
    (settings.context (u.begun settings w k).1).read id =
      (settings.context (u.finalSlots settings w)).read id := by
  have hslot : (settings.context (u.begun settings w k).1).slot? id =
      (settings.context (u.finalSlots settings w)).slot? id := h.find?_begun hid
  rw [RunContext.read, RunContext.read, hslot]

theorem rows_of_cancels (h : u.Ordered) {p : SideInputPlan} (hp : p ∈ u.sideInputs)
    {id : SideInputId} {e : Error}
    (hread : (settings.context (u.finalSlots settings w)).read id = .error e)
    (hcancels : u.Cancels settings w id p.id) : u.sideInputRows settings w p = .error e := by
  obtain ⟨q, hq, hid, hstops⟩ := hcancels
  have hqp : q = p := by
    have hget := h.getElem?_id hq
    rw [hid, h.getElem?_id hp] at hget
    exact (Option.some.inj hget).symm
  subst hqp
  obtain ⟨e', hread', hrows⟩ := hstops.execute_eq
  rw [h.read_begun (h.below q hq id hstops.mem_sideInputs), hread] at hread'
  cases hread'
  exact hrows

theorem readersGet (h : u.Ordered) {p : SideInputPlan} (hp : p ∈ u.sideInputs) {e : Error}
    (hfailed : u.Failed settings w p.id e) :
    u.ReadersGet settings w p.id (e.forReader p.aliasName) := by
  have hread := h.read_failed hp hfailed
  constructor
  · exact hread
  · intro q hq hcancels
    exact h.rows_of_cancels hq hread hcancels
  · intro k o ho hstops
    obtain ⟨e', hread', hrows⟩ := hstops.execute_eq
    rw [hread] at hread'
    cases hread'
    exact runAll_error ho hrows

/-- Along a chain of cancelled side inputs, all readers get the same error. -/
theorem readersGet_of_chain (h : u.Ordered) {p : SideInputPlan} (hp : p ∈ u.sideInputs) {e : Error}
    (hfailed : u.Failed settings w p.id e) {rest : List SideInputId}
    (hchain : (p.id :: rest).IsChain (u.Cancels settings w)) :
    ∀ id ∈ p.id :: rest, u.ReadersGet settings w id (e.forReader p.aliasName) := by
  induction rest generalizing p e with
  | nil =>
      intro id hid
      rw [List.mem_singleton.mp hid]
      exact h.readersGet hp hfailed
  | cons next rest ih =>
      obtain ⟨hcancels, hrest⟩ := List.isChain_cons_cons.mp hchain
      obtain ⟨q, hq, rfl, -⟩ := id hcancels
      have hrows := h.rows_of_cancels hq (h.read_failed hp hfailed) hcancels
      have hnext := ih hq (h.failed_of_error hq hrows) hrest
      rw [Error.forReader_forReader] at hnext
      exact List.forall_mem_cons.mpr ⟨h.readersGet hp hfailed, hnext⟩

/-- Where side inputs run in the order of their numbers, failures spread. -/
theorem spreadsFailures (h : u.Ordered) (settings : RunSettings) (w : EngineState) :
    u.SpreadsFailures settings w := by
  constructor
  · rintro p hp ids input hnode id hid e ⟨slot, hslot, hstate⟩
    have hmem := Operator.mem_sideInputs_of_broadcast hnode hid
    have hread := read_of_find? settings hslot hstate
    rw [← h.read_begun (h.below p hp id hmem)] at hread
    obtain ⟨e', hrows⟩ := Operator.exists_execute_error hmem hread [] (u.begun settings w p.id).2
    exact ⟨e', hrows, h.failed_of_error hp hrows⟩
  · rintro k o ho ids input hnode id hid e ⟨slot, hslot, hstate⟩
    have hread := read_of_find? settings hslot hstate
    have hmem := Operator.mem_sideInputs_of_broadcast hnode hid
    obtain ⟨e', hrows⟩ := Operator.exists_execute_error hmem hread [] (u.stateBefore settings w k)
    exact ⟨e', runAll_error ho hrows⟩
  · intro p hp r hrows hsize
    exact h.failed_of_rows hp hrows hsize
  · intro first hfirst e hfailed rest hchain
    exact ⟨h.readersGet_of_chain hfirst hfailed hchain, e.forReader_cases first.aliasName⟩

end Ordered

end PhysicalUnit

/-- In every accepted unit failures spread to all that depends on them. -/
theorem Script.compile_spreadsFailures {script : Script} {statements : List Statement}
    {u : CompiledUnit} (h : script.compile statements = .ok u) {batchSize : Nat}
    {phys : PhysicalUnit} (hphys : u.lower batchSize = .ok phys) (settings : RunSettings)
    (w : EngineState) : phys.SpreadsFailures settings w :=
  (Script.ordered_of_lower h hphys).spreadsFailures settings w

/-- A relation that is read as a scalar by a second one, which is read as a scalar by a third. -/
def nestedScalars : Script :=
  ⟨[("pair", .load "t" none),
    ("one", .project [⟨.scalarRef "pair" (.position 0), "x"⟩] (.load "t" none)),
    ("top", .project [⟨.scalarRef "one" (.position 0), "y"⟩] (.load "t" none))]⟩

/-- The first side input of the nested scalars. -/
def pairInput : SideInputPlan := ⟨0, "pair", .scan "t" none 8192, none, ["one"]⟩

/-- The nested scalars as they are lowered. -/
def nestedUnit : PhysicalUnit :=
  ⟨[pairInput,
    ⟨1, "one", .broadcast [0] (.project [⟨.placeholder ⟨0, "pair", 0, .binary, false⟩, "x"⟩]
      (.scan "t" none 8192)), some [⟨"x", .binary, true⟩], ["top"]⟩],
    [⟨"top", .collect, .broadcast [1] (.project
      [⟨.placeholder ⟨1, "one", 0, .binary, false⟩, "y"⟩] (.scan "t" none 8192)),
        some [⟨"y", .binary, true⟩]⟩]⟩

/-- A table of two rows. -/
def twoCells : EngineState :=
  ⟨[("t", ⟨positionalSchema 1, [[.cons (some ⟨#[55]⟩) .nil, .cons (some ⟨#[56]⟩) .nil]]⟩)], []⟩

theorem nestedUnit_lowered :
    ∃ u, nestedScalars.compile [⟨"top", .collect⟩] = .ok u ∧ u.lower 8192 = .ok nestedUnit := by
  have hunit : (nestedScalars.compile [⟨"top", .collect⟩] >>= fun u => u.lower 8192) =
      .ok nestedUnit := by
    cbv
  exact bind_eq_ok.mp hunit

theorem nestedUnit_pair : ∃ r,
    nestedUnit.sideInputRows ⟨"q", 8192, 1, 64⟩ twoCells pairInput = .ok r ∧ r.size = 2 := by
  have hrows : (nestedUnit.sideInputRows ⟨"q", 8192, 1, 64⟩ twoCells pairInput).map
      Relation.size = .ok 2 := by
    cbv
  exact map_eq_ok.mp hrows

theorem nestedUnit_cancels : nestedUnit.Cancels ⟨"q", 8192, 1, 64⟩ twoCells 0 1 := by
  have hread : (RunSettings.context ⟨"q", 8192, 1, 64⟩
      (nestedUnit.begun ⟨"q", 8192, 1, 64⟩ twoCells 1).1).read 0 =
        .error (.cardinality "pair" 2) := by
    cbv
  exact ⟨_, List.mem_cons_of_mem _ List.mem_cons_self, rfl,
    Or.inl ⟨[], [], [], rfl, rfl, _, hread⟩⟩

/-- The output that reads the second relation is told what is wrong with the first. -/
theorem nestedScalars_spreadFailures :
    ∃ u, nestedScalars.compile [⟨"top", .collect⟩] = .ok u ∧ u.lower 8192 = .ok nestedUnit ∧
      (nestedUnit.runAll ⟨"q", 8192, 1, 64⟩ twoCells).1[0]? =
        some (.error (.cardinality "pair" 2)) := by
  obtain ⟨u, hu, hphys⟩ := nestedUnit_lowered
  obtain ⟨r, hr, hsize⟩ := nestedUnit_pair
  have hspread := Script.compile_spreadsFailures hu hphys ⟨"q", 8192, 1, 64⟩ twoCells
  have hfailed := hspread.cardinality pairInput List.mem_cons_self r hr hsize.ge
  rw [hsize] at hfailed
  obtain ⟨hreaders, -⟩ := hspread.chains pairInput List.mem_cons_self _ hfailed [1]
    (List.isChain_cons_cons.mpr ⟨nestedUnit_cancels, .singleton 1⟩)
  have hlast := hreaders 1 (List.mem_cons_of_mem _ List.mem_cons_self)
  refine ⟨u, hu, hphys, hlast.outputs 0 _ rfl ?_⟩
  exact Or.inl ⟨[], [], [], rfl, rfl, _, hlast.reads⟩

end RelScript
