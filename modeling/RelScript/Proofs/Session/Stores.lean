import RelScript.Proofs.Execution.Renumbering
import RelScript.Session

/-!
Stores in a session. A store changes the table of its target and no other one; several stores run
one after the other, or are queued in batch mode.
-/

namespace RelScript

namespace Catalog

theorem lookup_register {c : Catalog} {name target : String} (h : name ≠ target)
    (table : Relation) : (c.register target table).lookup name = c.lookup name := by
  rw [register, List.lookup_cons, beq_false_of_ne h]
  exact lookup_filter_of_ne h c

/-- The catalog after rows, or the failure to produce them, have reached a store. -/
def receive (c : Catalog) (target : String) (rows : Outcome Relation) : Catalog :=
  match rows >>= c.write target with
  | .ok written => written.2
  | .error _ => c

theorem lookup_receive {c : Catalog} {name target : String} (h : name ≠ target)
    (rows : Outcome Relation) : (c.receive target rows).lookup name = c.lookup name := by
  unfold receive
  cases hwritten : rows >>= c.write target with
  | error e => rfl
  | ok written =>
      obtain ⟨r, -, hwrite⟩ := bind_eq_ok.mp hwritten
      obtain ⟨table, -, hwrite⟩ := bind_eq_ok.mp hwrite
      cases hwrite
      exact lookup_register h table

theorem get_receive {c : Catalog} {name target : String} (h : name ≠ target)
    (rows : Outcome Relation) : (c.receive target rows).get name = c.get name := by
  rw [get, get, lookup_receive h]

theorem receive_congr (c : Catalog) (target : String) {rows rows' : Outcome Relation}
    (h : Alike Eq rows rows') : c.receive target rows = c.receive target rows' := by
  cases rows with
  | error e =>
      obtain ⟨f, rfl⟩ := h.error_left
      rfl
  | ok r =>
      obtain ⟨_, rfl, rfl⟩ := h.ok_left
      rfl

theorem map_write (c : Catalog) (target : String) (r : Relation) :
    ((c.write target r).map fun _ => r) = r.encode.map fun _ => r := by
  unfold write
  cases r.encode <;> rfl

theorem receive_ok (c : Catalog) (target : String) {r table : Relation}
    (h : r.encode = .ok table) : c.receive target (.ok r) = c.register target table := by
  have hwritten : ((.ok r : Outcome Relation) >>= c.write target) =
      .ok (table.size, c.register target table) := by
    show c.write target r = _
    rw [write, h]
    rfl
  rw [receive, hwritten]

theorem receive_error (c : Catalog) (target : String) {r : Relation} {e : Error}
    (h : r.encode = .error e) : c.receive target (.ok r) = c := by
  have hfailed : ((.ok r : Outcome Relation) >>= c.write target) = .error e := by
    show c.write target r = _
    rw [write, h]
    rfl
  rw [receive, hfailed]

theorem get_receive_self {c c' : Catalog} {target : String} (h : c.get target = c'.get target)
    (rows : Outcome Relation) :
    (c.receive target rows).get target = (c'.receive target rows).get target := by
  cases rows with
  | error e => exact h
  | ok r =>
      cases hencode : r.encode with
      | error e => rwa [receive_error c target hencode, receive_error c' target hencode]
      | ok table =>
          rw [receive_ok c target hencode, receive_ok c' target hencode]
          simp [get, register]

end Catalog

/-- A store gives the rows that it has written, and writes what its input gives. -/
theorem execute_store {c : Catalog} {i : Operator} {ctx : RunContext} {b : ScalarBindings}
    {w : EngineState} (hcatalog : (i.execute ctx b w).2.catalog = c) (target : String) :
    ((Operator.store target i).execute ctx b w).1 =
        ((i.execute ctx b w).1 >>= fun r => (c.write target r).map fun _ => r) ∧
      ((Operator.store target i).execute ctx b w).2.catalog =
        c.receive target (i.execute ctx b w).1 := by
  cases hresult : (i.execute ctx b w).1 with
  | error e =>
      rw [Operator.execute, run_bind, hresult]
      exact ⟨rfl, hcatalog⟩
  | ok r =>
      have hstore : (Operator.store target i).execute ctx b w =
          (ofOutcome ((i.execute ctx b w).2.catalog.write target r) >>= fun written => do
            modify fun w => { w with catalog := written.2 }
            Operator.execute.finish ctx (.store target i) r) (i.execute ctx b w).2 := by
        rw [Operator.execute, run_bind, hresult]
        rfl
      have hreceive : c.receive target (.ok r) =
          match c.write target r with
          | .ok written => written.2
          | .error _ => c := rfl
      have hrows : ((.ok r : Outcome Relation) >>= fun r => (c.write target r).map fun _ => r) =
          (c.write target r).map fun _ => r := rfl
      rw [hstore, hreceive, hrows, hcatalog]
      cases c.write target r with
      | error e => exact ⟨rfl, hcatalog⟩
      | ok written => exact ⟨rfl, rfl⟩

/-- The rows of outputs, whether they are stored or kept. -/
def outputRows (settings : RunSettings) (slots : List Slot) :
    List OutputPlan → EngineState → List (Outcome Relation)
  | [], _ => []
  | o :: rest, w =>
    let (rows, w) := o.plan.execute (settings.context slots) [] w
    rows :: outputRows settings slots rest w

/-- The rows of all outputs of a unit that runs. -/
def PhysicalUnit.rows (settings : RunSettings) (u : PhysicalUnit) (w : EngineState) :
    List (Outcome Relation) :=
  let (slots, w) := materializeAll settings u.schedule [] w
  outputRows settings slots u.outputs w

theorem runOutputs_eq_zipWith (settings : RunSettings) (slots : List Slot) (os : List OutputPlan)
    (w : EngineState) : (runOutputs settings slots os w).1 =
      List.zipWith (fun o rows => rows.map o.result) os (outputRows settings slots os w) := by
  induction os generalizing w with
  | nil => rfl
  | cons o rest ih =>
      exact congrArg (_ :: ·) (ih _)

/-- A store of an alias as a statement. -/
def Statement.storing (s : String × String) : Statement := ⟨s.1, .store s.2⟩

namespace Session

/-- Stores aliases one after the other. -/
def storeEach : Session → List (String × String) → List (Outcome (Option OutputResult)) × Session
  | s, [] => ([], s)
  | s, (aliasName, target) :: rest =>
    let (result, s) := s.store aliasName target
    let (results, s) := s.storeEach rest
    (result :: results, s)

/-- The rows that an alias gives when it is stored at once. -/
def storedRows (s : Session) (stored : String × String) : Outcome Relation := do
  let (_, unit) ← s.plan [.storing stored]
  match unit.rows s.settings s.state with
  | [rows] => rows
  | _ => .error (.execution (.noOutput stored.1))

/-- The rows of every one of several stores that run one after the other. -/
def rowsEach : Session → List (String × String) → List (Outcome Relation)
  | _, [] => []
  | s, stored :: rest => s.storedRows stored :: (s.store stored.1 stored.2).2.rowsEach rest

theorem storeEach_queue {s : Session} (h : s.batchMode = true) (stores : List (String × String)) :
    (s.storeEach stores).2 = { s with pending := s.pending ++ stores.map .storing } := by
  induction stores generalizing s with
  | nil => rw [storeEach, List.map_nil, List.append_nil]
  | cons stored rest ih =>
      have hstore : (s.store stored.1 stored.2).2 =
          { s with pending := s.pending ++ [.storing stored] } := by
        rw [store, if_pos h]
        rfl
      show ((s.store stored.1 stored.2).2.storeEach rest).2 = _
      rw [hstore]
      refine (ih ?_).trans ?_
      · exact h
      · rw [List.append_assoc, List.map_cons, List.singleton_append]

theorem store_now {s : Session} (h : s.batchMode = false) {stored : String × String}
    {compiled : CompiledUnit} {unit : PhysicalUnit} {o : OutputPlan}
    (hplan : s.plan [.storing stored] = .ok (compiled, unit)) (ho : unit.outputs = [o])
    {slots : List Slot} {w : EngineState}
    (hslots : materializeAll s.settings unit.schedule [] s.state = (slots, w)) :
    s.storedRows stored = (o.plan.execute (s.settings.context slots) [] w).1 ∧
      (s.store stored.1 stored.2).1 = (s.storedRows stored).map (fun r => some (o.result r)) ∧
      (s.store stored.1 stored.2).2 =
        { s with
          state := (o.plan.execute (s.settings.context slots) [] w).2
          nextQuery := s.nextQuery + 1 } := by
  have hrows : s.storedRows stored = (o.plan.execute (s.settings.context slots) [] w).1 := by
    rw [storedRows, hplan]
    show (match unit.rows s.settings s.state with
      | [rows] => rows
      | _ => _) = _
    rw [PhysicalUnit.rows, hslots, ho]
    rfl
  have hrun : s.runUnit [.storing stored] =
      ([(s.storedRows stored).map o.result].mapM id,
        { s with
          state := (o.plan.execute (s.settings.context slots) [] w).2
          nextQuery := s.nextQuery + 1 }) := by
    rw [runUnit, hplan, hrows]
    show ((unit.run s.settings s.state).1, { s with
      state := (unit.run s.settings s.state).2
      nextQuery := s.nextQuery + 1 }) = _
    rw [PhysicalUnit.run, PhysicalUnit.runAll, hslots, ho]
    rfl
  refine ⟨hrows, ?_, ?_⟩
  · rw [store, if_neg (Bool.eq_false_iff.mp h)]
    show (s.runUnit [.storing stored]).1.map List.getLast? = _
    rw [hrun]
    cases s.storedRows stored <;> rfl
  · rw [store, if_neg (Bool.eq_false_iff.mp h)]
    show (s.runUnit [.storing stored]).2 = _
    rw [hrun]

theorem executeBatch_of_plan {s : Session} (h : s.pending ≠ []) {compiled : CompiledUnit}
    {unit : PhysicalUnit} (hplan : s.plan s.pending = .ok (compiled, unit)) :
    s.executeBatch = ((unit.runAll s.settings s.state).1.mapM id,
      { s with
        state := (unit.runAll s.settings s.state).2
        pending := []
        nextQuery := s.nextQuery + 1 }) := by
  have hempty : ¬ s.pending.isEmpty = true := by simpa using h
  have hplan' : { s with pending := [] }.plan s.pending = .ok (compiled, unit) := hplan
  rw [executeBatch, if_neg hempty, runUnit, hplan']
  rfl

end Session

end RelScript
