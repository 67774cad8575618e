/-
This file runs the enqueue ops, which are submitted in their order, each once its barrier is
consumed, and proves when no run is stuck.
-/

import NpuPlugin.AddEnqueueOps.Reprogrammed
import NpuPlugin.Library.Submission

namespace NpuPlugin.AddEnqueueOps

open Function List Nat Prod Run

variable {prog : Program}

/-! ### What is released -/

/-- A task is in front of the enqueue ops of its FIFO, or one of the first enqueue ops has it. -/
def Released (enquOps : List EnqueueOp) (lastDmas : List (Fifo × Nat)) (submitted : Nat)
    (task : Fifo × Nat) : Prop :=
  (∃ last, (task.1, last) ∈ lastDmas ∧ task.2 ≤ last) ∨
    ∃ idx < submitted, ∃ op, enquOps[idx]? = some op ∧ op.fifo = task.1 ∧
      op.start ≤ task.2 ∧ task.2 ≤ op.stop

def Program.taskAt (prog : Program) (place : Fifo × Nat) : Option ExecutableTask :=
  (prog.tasks place.1)[place.2]?

variable {buckets : BucketOrder} {lastDmas : List (Fifo × Nat)} {task : ExecutableTask}

theorem released_all {enquOps : List EnqueueOp}
    (res : addEnqueueOps buckets prog = .ok (enquOps, lastDmas)) {place : Fifo × Nat}
    (found : prog.taskAt place = some task) : Released enquOps lastDmas enquOps.length place := by
  obtain ⟨fifo, position⟩ := place
  obtain ⟨final, ran, same, rfl, _⟩ := addEnqueueOps_ok res
  obtain ⟨scheduled, visits⟩ := visits_of_mem (mem_fifos_of_task found) ran
  obtain ⟨after, ranFifo⟩ := visits.ok ran
  obtain ⟨added, here, _⟩ := schedule_ok ranFifo
  have sound := addFifo_sound here
  rcases Nat.lt_or_ge position (initialCount added.lastDmaWithNoEnqueue) with initial | behind
  · refine .inl ?_
    cases last : added.lastDmaWithNoEnqueue with
    | none =>
      rw [last] at initial
      exact absurd initial (Nat.not_lt_zero _)
    | some lastDma =>
      rw [last] at initial
      refine ⟨lastDma, ?_, Nat.le_of_lt_succ initial⟩
      exact (mem_lastDmas_iff ran _).mpr ⟨scheduled, fifo, visits, added, here, rfl, last⟩
  · have inside := (List.getElem?_eq_some_iff.mp found).1
    obtain ⟨barrier, op, mem, _, above, below⟩ :=
      (sound.tiled.enqueued_iff position).mpr ⟨behind, inside⟩
    have inSchedule := (mem_enquOps_iff ran op).mpr ⟨scheduled, fifo, visits, added, here, mem⟩
    have inSorted : op ∈ sortEnquOps buckets prog.barriers.length final.enquOps :=
      mem_sortEnquOps.mpr inSchedule
    obtain ⟨idx, reindexed⟩ := exists_reindexed inSorted
    rw [← same] at reindexed
    obtain ⟨place, foundOp⟩ := mem_iff_getElem?.mp reindexed
    exact .inr ⟨place, (List.getElem?_eq_some_iff.mp foundOp).1, _, foundOp,
      sound.sameFifo op mem, above, below⟩

/-! ### The check -/

variable {counter after : List Int} {barrier : Nat} {op : EnqueueOp} {enquOps : List EnqueueOp}
  {idx : Nat}

theorem consume_ok {barrierIdx : Nat} (res : consume counter barrierIdx = .ok after) :
    ∃ remaining, counter[barrierIdx]? = some remaining ∧ 0 < remaining ∧
      after = counter.set barrierIdx (remaining - 1) := by
  unfold consume at res
  split at res
  · cases res
  · next remaining found =>
    split at res
    · cases res
    · next some =>
      cases res
      exact ⟨remaining, found, not_le.mp some, rfl⟩

theorem consume_zero (waits : List Nat) (zero : counter[barrier]? = some 0)
    (res : waits.foldlM consume counter = .ok after) :
    barrier ∉ waits ∧ after[barrier]? = some 0 := by
  induction waits generalizing counter with
  | nil =>
    cases res
    exact ⟨not_mem_nil, zero⟩
  | cons first rest ih =>
    obtain ⟨middle, ran, later⟩ := bind_ok res
    obtain ⟨remaining, found, pos, rfl⟩ := consume_ok ran
    have other : first ≠ barrier := by
      rintro rfl
      cases zero.symm.trans found
      exact absurd pos (lt_irrefl _)
    obtain ⟨notInRest, kept⟩ := ih ((getElem?_set_ne other).trans zero) later
    exact ⟨not_mem_cons_of_ne_of_not_mem other.symm notInRest, kept⟩

theorem verifyEnqueueOp_ok (res : verifyEnqueueOp prog counter op = .ok after) :
    counter[op.barrier]? = some 0 ∧
      ((prog.range op).flatMap ExecutableTask.waitBarriers).foldlM consume counter =
        .ok after := by
  unfold verifyEnqueueOp at res
  split at res
  · cases res
  · next remaining found =>
    split at res
    · cases res
    · next zero => exact ⟨found.trans (congrArg some (not_not.mp zero)), res⟩

theorem verifyEnqueueOps_zero (enquOps : List EnqueueOp) (zero : counter[barrier]? = some 0)
    (res : enquOps.foldlM (verifyEnqueueOp prog) counter = .ok after) :
    ∀ op ∈ enquOps, ∀ task ∈ prog.range op, barrier ∉ task.waitBarriers := by
  induction enquOps generalizing counter with
  | nil => exact forall_mem_nil _
  | cons first rest ih =>
    obtain ⟨middle, ran, later⟩ := bind_ok res
    obtain ⟨notInWaits, kept⟩ := consume_zero _ zero (verifyEnqueueOp_ok ran).2
    intro op mem task inRange inTask
    rcases mem_cons.mp mem with rfl | inRest
    · exact notInWaits (mem_flatMap.mpr ⟨task, inRange, inTask⟩)
    · exact ih kept later op inRest task inRange inTask

theorem not_consumed_later (res : enquOps.foldlM (verifyEnqueueOp prog) counter = .ok after)
    {later : Nat} {other : EnqueueOp} (found : enquOps[idx]? = some op) (le : idx ≤ later)
    (foundLater : enquOps[later]? = some other) :
    ∀ task ∈ prog.range other, op.barrier ∉ task.waitBarriers := by
  have inside := (List.getElem?_eq_some_iff.mp found).1
  have split := drop_eq_getElem_cons inside
  rw [← take_append_drop idx enquOps, foldlM_append] at res
  obtain ⟨middle, _, rest⟩ := bind_ok res
  have here : enquOps[idx] = op := (List.getElem?_eq_some_iff.mp found).2
  have zero : middle[op.barrier]? = some 0 := by
    rw [split, foldlM_cons, here] at rest
    obtain ⟨next, ran, _⟩ := bind_ok rest
    exact (verifyEnqueueOp_ok ran).1
  refine verifyEnqueueOps_zero _ zero rest other (mem_iff_getElem?.mpr ⟨later - idx, ?_⟩)
  rw [getElem?_drop, Nat.add_sub_cancel' le]
  exact foundLater

/-- The tasks that consume the barrier of an enqueue op are released in front of it. -/
theorem consumers_released (res : addEnqueueOps buckets prog = .ok (enquOps, lastDmas))
    (found : enquOps[idx]? = some op) {consumer : Fifo × Nat}
    (here : prog.taskAt consumer = some task) (consumes : op.barrier ∈ task.waitBarriers) :
    Released enquOps lastDmas idx consumer := by
  obtain ⟨_, _, _, _, counter, verified⟩ := addEnqueueOps_ok res
  obtain ⟨middle, _, ran⟩ := bind_ok verified
  refine (released_all res here).imp id ?_
  rintro ⟨later, _, other, foundOther, same, above, below⟩
  refine ⟨later, ?_, other, foundOther, same, above, below⟩
  by_contra behind
  refine not_consumed_later ran found (not_lt.mp behind) foundOther task
    (mem_range_iff.mpr ⟨consumer.2, above, below, ?_⟩) consumes
  rw [same]
  exact here

/-! ### Runs -/

structure State where
  submitted : Nat
  executed : Fifo → Nat

def start : State := ⟨0, fun _ => 0⟩

variable (prog : Program) (state : State)

def State.run (fifo : Fifo) : State :=
  { state with executed := Function.update state.executed fifo (state.executed fifo + 1) }

def State.Ran (place : Fifo × Nat) : Prop := place.2 < state.executed place.1

instance (state : State) (place : Fifo × Nat) : Decidable (state.Ran place) :=
  inferInstanceAs (Decidable (place.2 < state.executed place.1))

/-- All tasks that update a barrier are run. -/
def Produced (barr : Nat) : Prop :=
  ∀ place task, prog.taskAt place = some task → barr ∈ task.updateBarriers → state.Ran place

/-- All tasks that wait for a barrier are run. -/
def Consumed (barr : Nat) : Prop :=
  ∀ place task, prog.taskAt place = some task → barr ∈ task.waitBarriers → state.Ran place

inductive Step (prog : Program) (enquOps : List EnqueueOp) (lastDmas : List (Fifo × Nat)) :
    State → State → Prop
  | submit (state : State) (op : EnqueueOp) :
      enquOps[state.submitted]? = some op → Consumed prog state op.barrier →
      Step prog enquOps lastDmas state { state with submitted := state.submitted + 1 }
  | run (state : State) (fifo : Fifo) (task : ExecutableTask) :
      prog.taskAt (fifo, state.executed fifo) = some task →
      Released enquOps lastDmas state.submitted (fifo, state.executed fifo) →
      (∀ barr ∈ task.waitBarriers, Produced prog state barr) →
      Step prog enquOps lastDmas state (state.run fifo)

/-- No step is left, though not every task has run. -/
def Stuck (enquOps : List EnqueueOp) (lastDmas : List (Fifo × Nat)) (state : State) : Prop :=
  (∀ after, ¬ Step prog enquOps lastDmas state after) ∧
    ∃ place task, prog.taskAt place = some task ∧ ¬ state.Ran place

/-! ### What a task waits for -/

/-- The earlier task is in front of the later one in their FIFO, or it produces a barrier that the
later one waits for. -/
def WaitsFor (later earlier : Fifo × Nat) : Prop :=
  ∃ task, prog.taskAt later = some task ∧
    (earlier.1 = later.1 ∧ earlier.2 + 1 = later.2 ∨
      ∃ producer, prog.taskAt earlier = some producer ∧
        ∃ barr ∈ task.waitBarriers, barr ∈ producer.updateBarriers)

/-- The tasks that the consumers of the barrier of an enqueue op wait for, directly or not, are
released in front of it. -/
def EnqueuedInFront (enquOps : List EnqueueOp) (lastDmas : List (Fifo × Nat)) : Prop :=
  ∀ (idx : Nat) op, enquOps[idx]? = some op → ∀ consumer task,
    prog.taskAt consumer = some task → op.barrier ∈ task.waitBarriers → ∀ earlier,
      Relation.TransGen (WaitsFor prog) consumer earlier →
        Released enquOps lastDmas idx earlier

/-! ### Topological order -/

/-- What a task waits for comes before what another one updates. -/
def ExecutableTask.Orders (first second : ExecutableTask) : Prop :=
  ∀ wait ∈ first.waitBarriers, ∀ update ∈ second.updateBarriers, wait < update

instance (first second : ExecutableTask) : Decidable (first.Orders second) :=
  inferInstanceAs (Decidable (∀ wait ∈ first.waitBarriers,
    ∀ update ∈ second.updateBarriers, wait < update))

/-- The barriers are in an order in which they can be produced. -/
structure TopologicallyOrdered : Prop where
  dependencies : ∀ barr < prog.barriers.length,
    ∀ dep ∈ getDependencies prog.barriers barr, dep < barr
  tasks : ∀ fifo ∈ prog.fifos, ∀ task ∈ prog.tasks fifo, task.Orders task
  fifos : ∀ fifo ∈ prog.fifos, (prog.tasks fifo).Pairwise ExecutableTask.Orders

variable {fifo : Fifo}

section Order

variable {prog : Program}

theorem TopologicallyOrdered.lt (ordered : TopologicallyOrdered prog)
    {first second : Nat} {waiting updating : ExecutableTask} (le : first ≤ second)
    (foundFirst : prog.taskAt (fifo, first) = some waiting)
    (foundSecond : prog.taskAt (fifo, second) = some updating) : waiting.Orders updating := by
  have handled := mem_fifos_of_task foundFirst
  obtain ⟨_, rfl⟩ := List.getElem?_eq_some_iff.mp foundFirst
  obtain ⟨_, rfl⟩ := List.getElem?_eq_some_iff.mp foundSecond
  rcases lt_or_eq_of_le le with less | rfl
  · exact pairwise_iff_getElem.mp (ordered.fifos fifo handled) _ _ _ _ less
  · exact ordered.tasks fifo handled _ (getElem_mem _)

/-- A number above some barriers. -/
def above (barrs : List Nat) : Nat := barrs.foldr (fun barr bound => max (barr + 1) bound) 0

variable {bound : Nat}

theorem above_le_iff {barrs : List Nat} : above barrs ≤ bound ↔ ∀ barr ∈ barrs, barr < bound := by
  induction barrs with
  | nil => exact iff_of_true (zero_le _) fun _ mem => absurd mem not_mem_nil
  | cons first rest ih =>
    rw [forall_mem_cons, ← ih]
    exact max_le_iff

/-- A number above the barriers that the tasks up to a place wait for. -/
def lastWait (prog : Program) (place : Fifo × Nat) : Nat :=
  above (((prog.tasks place.1).take (place.2 + 1)).flatMap ExecutableTask.waitBarriers)

theorem lastWait_le_iff {place : Fifo × Nat} :
    lastWait prog place ≤ bound ↔ ∀ position ≤ place.2, ∀ task,
      prog.taskAt (place.1, position) = some task → ∀ wait ∈ task.waitBarriers,
        wait < bound := by
  unfold lastWait Program.taskAt
  rw [above_le_iff]
  constructor
  · intro all position le task found wait mem
    refine all wait (mem_flatMap.mpr ⟨task, mem_iff_getElem?.mpr ⟨position, ?_⟩, mem⟩)
    rw [getElem?_take_of_lt (lt_succ_of_le le)]
    exact found
  · intro all wait mem
    obtain ⟨task, inTasks, inTask⟩ := mem_flatMap.mp mem
    obtain ⟨position, found⟩ := mem_iff_getElem?.mp inTasks
    have small : position < place.2 + 1 := by
      have inside := (List.getElem?_eq_some_iff.mp found).1
      rw [List.length_take] at inside
      exact inside.trans_le (min_le_left _ _)
    rw [getElem?_take_of_lt small] at found
    exact all position (le_of_lt_succ small) task found wait inTask

/-- A task waits for one with earlier barriers, or for one in front of it in its FIFO. -/
theorem waitsFor_wellFounded (ordered : TopologicallyOrdered prog) :
    WellFounded fun earlier later => WaitsFor prog later earlier := by
  have lex : WellFounded (Prod.Lex (· < ·) (· < ·) : Nat × Nat → Nat × Nat → Prop) :=
    WellFounded.prod_lex wellFounded_lt wellFounded_lt
  refine Subrelation.wf ?_ (InvImage.wf (fun place : Fifo × Nat =>
    (lastWait prog place, place.2)) lex)
  intro earlier later waitsFor
  obtain ⟨task, found, ⟨same, next⟩ | ⟨producer, foundProducer, barr, waits, updates⟩⟩ := waitsFor
  · have le : lastWait prog earlier ≤ lastWait prog later := by
      refine lastWait_le_iff.mpr fun position before task here wait mem => ?_
      rw [same] at here
      exact lastWait_le_iff.mp le_rfl position (by omega) task here wait mem
    exact lex_iff.mpr ((lt_or_eq_of_le le).imp id fun equal =>
      ⟨equal, (lt_succ_self _).trans_eq next⟩)
  · have below : lastWait prog earlier ≤ barr :=
      lastWait_le_iff.mpr fun position le other here wait mem =>
        ordered.lt le here foundProducer wait mem barr updates
    have above : barr < lastWait prog later :=
      lastWait_le_iff.mp le_rfl later.2 le_rfl task found barr waits
    exact lex_iff.mpr (.inl (below.trans_lt above))

end Order

/-! ### The submission of the enqueue ops -/

def Program.places (prog : Program) : List (Fifo × Nat) :=
  prog.fifos.flatMap fun fifo => (List.range (prog.tasks fifo).length).map (fifo, ·)

variable {prog : Program}

theorem mem_places_iff {place : Fifo × Nat} :
    place ∈ prog.places ↔ ∃ task, prog.taskAt place = some task := by
  unfold Program.places
  rw [mem_flatMap]
  constructor
  · rintro ⟨fifo, _, mem⟩
    obtain ⟨position, inside, rfl⟩ := mem_map.mp mem
    exact ⟨_, getElem?_eq_getElem (mem_range.mp inside)⟩
  · rintro ⟨task, found⟩
    exact ⟨place.1, mem_fifos_of_task found, mem_map.mpr
      ⟨place.2, mem_range.mpr (List.getElem?_eq_some_iff.mp found).1, rfl⟩⟩

theorem produced_of_places {state : State} {barr : Nat}
    (all : ∀ place ∈ prog.places, ∀ task ∈ prog.taskAt place, barr ∈ task.updateBarriers →
      state.Ran place) : Produced prog state barr :=
  fun place task found updates => all place (mem_places_iff.mpr ⟨task, found⟩) task found updates

/-- The enqueue ops are the groups; the consumers of their barriers guard them. -/
def submission (prog : Program) (enquOps : List EnqueueOp) (lastDmas : List (Fifo × Nat)) :
    Submission.System State (Fifo × Nat) where
  Step := Step prog enquOps lastDmas
  Done := State.Ran
  count := State.submitted
  tasks := prog.places
  groups := enquOps.length
  WaitsFor := WaitsFor prog
  Guards idx place := ∃ op task, enquOps[idx]? = some op ∧
    prog.taskAt place = some task ∧ op.barrier ∈ task.waitBarriers
  Submitted := Released enquOps lastDmas

section Lawful

variable {prog : Program} {enquOps : List EnqueueOp} {lastDmas : List (Fifo × Nat)}
  {place : Fifo × Nat} {state : State} {buckets : BucketOrder}

theorem Released.succ {submitted : Nat} (released : Released enquOps lastDmas submitted place) :
    Released enquOps lastDmas (submitted + 1) place :=
  released.imp id fun ⟨idx, small, rest⟩ => ⟨idx, lt_succ_of_lt small, rest⟩

theorem ran_run_iff :
    (state.run fifo).Ran place ↔ state.Ran place ∨ place = (fifo, state.executed fifo) := by
  obtain ⟨other, position⟩ := place
  unfold State.Ran State.run
  dsimp only
  by_cases same : other = fifo
  · subst same
    rw [update_self, Nat.lt_succ_iff_lt_or_eq, mk.injEq]
    exact or_congr_right (and_iff_right rfl).symm
  · rw [update_of_ne same, mk.injEq]
    exact (or_iff_left fun both => same both.1).symm

theorem step_cases {after : State} (step : Step prog enquOps lastDmas state after) :
    (submission prog enquOps lastDmas).Submits state after ∨
      ∃ place, (submission prog enquOps lastDmas).Performs state place after := by
  cases step with
  | submit op found consumed =>
    refine .inl ⟨(List.getElem?_eq_some_iff.mp found).1, ?_, rfl, fun _ => Iff.rfl⟩
    rintro place ⟨other, task, foundOther, here, waits⟩
    cases found.symm.trans foundOther
    exact consumed place task here waits
  | run fifo task found released produced =>
    refine .inr ⟨(fifo, state.executed fifo), ⟨?_, ?_, released, ?_⟩, rfl, fun _ => ran_run_iff⟩
    · exact mem_places_iff.mpr ⟨task, found⟩
    · exact lt_irrefl (state.executed fifo)
    · rintro ⟨other, position⟩ ⟨waiting, here, ⟨same, next⟩ | ⟨producer, foundProducer, both⟩⟩
      · cases same
        exact (lt_succ_self position).trans_eq next
      · cases found.symm.trans here
        obtain ⟨barr, waits, updates⟩ := both
        exact produced barr waits _ producer foundProducer updates

theorem exists_run (ready : (submission prog enquOps lastDmas).Ready state place) :
    ∃ after, Step prog enquOps lastDmas state after := by
  obtain ⟨fifo, position⟩ := place
  obtain ⟨task, found⟩ := mem_places_iff.mp ready.mem
  -- What is in front of the task has run, so it is the head of its FIFO.
  have head : state.executed fifo = position := by
    refine le_antisymm (not_lt.mp ready.undone) ?_
    cases position with
    | zero => exact zero_le _
    | succ before => exact ready.waits (fifo, before) ⟨task, found, .inl ⟨rfl, rfl⟩⟩
  subst head
  exact ⟨_, .run state fifo task found ready.submitted fun barr waits place producer here updates =>
    ready.waits place ⟨task, found, .inr ⟨producer, here, barr, waits, updates⟩⟩⟩

theorem submission_lawful (ordered : TopologicallyOrdered prog)
    (res : addEnqueueOps buckets prog = .ok (enquOps, lastDmas)) :
    (submission prog enquOps lastDmas).Lawful where
  step_cases := step_cases
  submits := by
    intro state next guarded
    have found := getElem?_eq_getElem next
    exact ⟨_, .submit state _ found fun place task here waits =>
      guarded place ⟨_, task, found, here, waits⟩⟩
  performs := exists_run
  submitted_succ := Released.succ
  submitted_all := by
    intro place mem
    obtain ⟨task, found⟩ := mem_places_iff.mp mem
    exact released_all res found
  guards_mem := by
    rintro _ place ⟨_, task, _, here, _⟩
    exact mem_places_iff.mpr ⟨task, here⟩
  waits_mem := by
    rintro ⟨fifo, position⟩ ⟨other, earlier⟩ ⟨task, found, ⟨same, next⟩ | ⟨producer, here, _⟩⟩
    · cases same
      have inside := (List.getElem?_eq_some_iff.mp found).1
      exact mem_places_iff.mpr ⟨_, getElem?_eq_getElem
        ((lt_succ_self _).trans (next.trans_lt inside))⟩
    · exact mem_places_iff.mpr ⟨producer, here⟩
  wellFounded := waitsFor_wellFounded ordered

theorem stuck_iff : Stuck prog enquOps lastDmas state ↔
    (submission prog enquOps lastDmas).Stuck state := by
  refine and_congr_right fun _ => exists_congr fun place => ?_
  show (∃ task, prog.taskAt place = some task ∧ ¬ state.Ran place) ↔
    place ∈ prog.places ∧ ¬ state.Ran place
  rw [mem_places_iff, exists_and_right]

theorem covered_iff (res : addEnqueueOps buckets prog = .ok (enquOps, lastDmas)) :
    (submission prog enquOps lastDmas).Covered ↔
      EnqueuedInFront prog enquOps lastDmas := by
  constructor
  · intro covered idx op found consumer task here waits earlier later
    exact covered idx (List.getElem?_eq_some_iff.mp found).1 consumer
      ⟨op, task, found, here, waits⟩ earlier later.to_reflTransGen
  · rintro inFront idx _ consumer ⟨op, task, found, here, waits⟩ earlier reached
    rcases Relation.reflTransGen_iff_eq_or_transGen.mp reached with rfl | later
    · exact consumers_released res found here waits
    · exact inFront idx op found consumer task here waits earlier later

end Lawful

/-- No run of the enqueue ops is stuck exactly when all that the consumers of the barrier of an
enqueue op wait for is enqueued in front of it, or needs no enqueue op. -/
theorem enqueueOps_never_stuck_iff {prog : Program} {buckets : BucketOrder}
    {enquOps : List EnqueueOp} {lastDmas : List (Fifo × Nat)} (ordered : TopologicallyOrdered prog)
    (res : addEnqueueOps buckets prog = .ok (enquOps, lastDmas)) :
    (∀ state, Relation.ReflTransGen (Step prog enquOps lastDmas) start state →
      ¬ Stuck prog enquOps lastDmas state) ↔ EnqueuedInFront prog enquOps lastDmas := by
  have untouched : ∀ place, ¬ start.Ran place := fun _ => not_lt_zero _
  rw [← covered_iff res,
    ← Submission.System.never_stuck_iff (submission_lawful ordered res) rfl untouched]
  exact forall_congr' fun state => imp_congr_right fun _ => not_congr stuck_iff

theorem enqueueOps_never_stuck_iff_fourFifos :
    (∀ state, Relation.ReflTransGen (Step fourFifos
        [⟨0, 0, .dma 0 1, 0, 1⟩, ⟨1, 1, .dma 0 0, 0, 1⟩] [(.dma 1 0, 1), (.dma 1 1, 1)])
          start state →
      ¬ Stuck fourFifos [⟨0, 0, .dma 0 1, 0, 1⟩, ⟨1, 1, .dma 0 0, 0, 1⟩]
        [(.dma 1 0, 1), (.dma 1 1, 1)] state) ↔
      EnqueuedInFront fourFifos [⟨0, 0, .dma 0 1, 0, 1⟩, ⟨1, 1, .dma 0 0, 0, 1⟩]
        [(.dma 1 0, 1), (.dma 1 1, 1)] :=
  enqueueOps_never_stuck_iff ⟨by decide, by decide, by decide⟩
    (show addEnqueueOps hashOrder fourFifos = .ok ([⟨0, 0, .dma 0 1, 0, 1⟩,
      ⟨1, 1, .dma 0 0, 0, 1⟩], [(.dma 1 0, 1), (.dma 1 1, 1)]) from rfl)

/-- The DMA that produces barrier 0 is enqueued at barrier 1, behind the enqueue op that waits for
barrier 0 to be consumed. -/
def laterProducer : Program where
  barriers := fiveBarriers
  tiles := [ dmaTile [⟨[], [3]⟩, ⟨[], [0]⟩, ⟨[3], [4]⟩] [⟨[], [2]⟩, ⟨[2], [4]⟩],
    dmaTile [⟨[0], [4]⟩] [⟨[], [1]⟩, ⟨[1], [4]⟩]]

def laterOps : List EnqueueOp := [⟨0, 0, .dma 0 1, 0, 1⟩, ⟨1, 1, .dma 0 0, 0, 2⟩]

def laterDmas : List (Fifo × Nat) := [(.dma 1 0, 0), (.dma 1 1, 1)]

/-- The DMAs that produce and consume barrier 1 have run, and nothing else can. -/
theorem laterProducer_stuck : TopologicallyOrdered laterProducer ∧
    addEnqueueOps hashOrder laterProducer = .ok (laterOps, laterDmas) ∧
    Relation.ReflTransGen (Step laterProducer laterOps laterDmas) start
      ((start.run (.dma 1 1)).run (.dma 1 1)) ∧
    Stuck laterProducer laterOps laterDmas ((start.run (.dma 1 1)).run (.dma 1 1)) := by
  have initial : ∀ position ≤ 1, Released laterOps laterDmas 0 (.dma 1 1, position) :=
    fun position le => .inl ⟨1, mem_cons_of_mem _ mem_cons_self, le⟩
  have first : Step laterProducer laterOps laterDmas start (start.run (.dma 1 1)) :=
    .run start (.dma 1 1) ⟨[], [1]⟩ rfl (initial 0 (zero_le 1)) nofun
  have second : Step laterProducer laterOps laterDmas (start.run (.dma 1 1))
      ((start.run (.dma 1 1)).run (.dma 1 1)) := by
    refine .run (start.run (.dma 1 1)) (.dma 1 1) ⟨[1], [4]⟩ rfl (initial 1 le_rfl) ?_
    intro barr mem
    obtain rfl := mem_singleton.mp mem
    exact produced_of_places (by decide)
  refine ⟨⟨by decide, by decide, by decide⟩, rfl, .tail (.single first) second, ?_, ?_⟩
  · intro after step
    cases step with
    | submit op found consumed =>
      -- The DMA that consumes barrier 0 has not run.
      cases found
      exact absurd (consumed (.dma 1 0, 0) ⟨[0], [4]⟩ rfl (by decide)) (by decide)
    | run fifo task found released produced =>
      rcases released with ⟨last, mem, _⟩ | ⟨_, none, _⟩
      · rcases mem_pair.mp mem with same | same
        · obtain ⟨rfl, _⟩ := mk.inj same
          cases found
          exact absurd (produced 0 (by decide) (.dma 0 0, 1) ⟨[], [0]⟩ rfl (by decide)) (by decide)
        · obtain ⟨rfl, _⟩ := mk.inj same
          cases found
      · exact absurd none (not_lt_zero _)
  · exact ⟨(.dma 1 0, 0), ⟨[0], [4]⟩, rfl, by decide⟩

end NpuPlugin.AddEnqueueOps
