/-
This file models `orderExecutionTasksAndBarriers`: an execution of the FIFO queues is simulated, in
which a task is ready when no barrier is left for which it waits. The tasks are reordered as they
become ready, and the maps are built anew.
-/

import Mathlib.Algebra.Ring.Nat
import Mathlib.Data.Finset.Insert
import Std.Data.TreeMap.Lemmas
import NpuPlugin.BarrierInfo.Model

namespace NpuPlugin

namespace BarrierLegalization

open BarrierInfo

inductive OrderFailure
  | simulateExecution
  | orderTasks (expected found : Nat)
  | orderBarriers (expected found : Nat)
  | rebuild (failure : Failure)
deriving DecidableEq, Repr

variable {Queue : Type}

/-- The indices of the tasks of each queue, in increasing order. -/
def getTaskOpQueues [LinearOrder Queue] (info : BarrierInfo Queue) : Std.TreeMap Queue (List Nat) :=
  info.allTaskOps.zipIdx.foldl (fun taskOpQueues task =>
    taskOpQueues.insert task.1.queueType (taskOpQueues.getD task.1.queueType [] ++ [task.2])) ∅

/-- The state of the simulation. Of each queue it has the tasks from the front task on. -/
structure Simulation (Queue : Type) where
  barrierInfo : BarrierInfo Queue
  frontTasks : List (Queue × List Nat)
  newTaskOpOrder : List Nat
  newBarrierOrder : List Nat
  newBarrierOrderSet : Finset Nat

section FrontTasks

variable (info : BarrierInfo Queue)

/-- The front task of a queue waits for no barrier. -/
def isReady (entry : Queue × List Nat) : Bool :=
  match entry.2 with
  | [] => false
  | task :: _ => (info.getWaitBarriers task).isEmpty

def allQueuesReachedEnd (frontTasks : List (Queue × List Nat)) : Bool :=
  frontTasks.all fun entry => entry.2.isEmpty

def allQueuesWaiting (frontTasks : List (Queue × List Nat)) : Bool :=
  frontTasks.all fun entry => !isReady info entry

/-- One turn over the queues takes at most one task of each. -/
def takeReady : List (Queue × List Nat) → List Nat × List (Queue × List Nat)
  | [] => ([], [])
  | entry :: others =>
    let (readyOps, frontTasks) := takeReady others
    match entry.2 with
    | [] => (readyOps, entry :: frontTasks)
    | task :: rest =>
      if (info.getWaitBarriers task).isEmpty then (task :: readyOps, (entry.1, rest) :: frontTasks)
      else (readyOps, entry :: frontTasks)

/-- Turns over the queues until all of them wait. -/
def findReadyOps : Nat → List (Queue × List Nat) → List Nat × List (Queue × List Nat)
  | 0, frontTasks => ([], frontTasks)
  | fuel + 1, frontTasks =>
    if allQueuesWaiting info frontTasks then ([], frontTasks)
    else
      let turn := takeReady info frontTasks
      let later := findReadyOps fuel turn.2
      (turn.1 ++ later.1, later.2)

end FrontTasks

def removeProducerOf (orderByConsumption : Bool) (readyOp : Nat) (simulation : Simulation Queue)
    (updateBarrier : Nat) : Simulation Queue :=
  let info := simulation.barrierInfo.removeProducer updateBarrier readyOp
  let simulation := { simulation with barrierInfo := info }
  let simulation :=
    if !orderByConsumption && updateBarrier ∉ simulation.newBarrierOrderSet then
      { simulation with
        newBarrierOrder := simulation.newBarrierOrder ++ [updateBarrier]
        newBarrierOrderSet := insert updateBarrier simulation.newBarrierOrderSet }
    else simulation
  if (info.getBarrierProducers updateBarrier).isEmpty then
    { simulation with
      newBarrierOrder :=
        if orderByConsumption then simulation.newBarrierOrder ++ [updateBarrier]
        else simulation.newBarrierOrder
      barrierInfo := info.resetBarrier updateBarrier }
  else simulation

/-- The update barriers are those at the start of the loop. -/
def removeBarrierProducer (orderByConsumption : Bool) (simulation : Simulation Queue)
    (readyOp : Nat) : Simulation Queue :=
  (simulation.barrierInfo.getUpdateBarriers readyOp).elements.foldl
    (removeProducerOf orderByConsumption readyOp) simulation

def executeReadyOp (orderByConsumption : Bool) (simulation : Simulation Queue) (readyOp : Nat) :
    Simulation Queue :=
  removeBarrierProducer orderByConsumption
    { simulation with newTaskOpOrder := simulation.newTaskOpOrder ++ [readyOp] } readyOp

def remaining (frontTasks : List (Queue × List Nat)) : Nat :=
  (frontTasks.map fun entry => entry.2.length).sum

def simulateQueues (orderByConsumption : Bool) :
    Nat → Simulation Queue → Except OrderFailure (Simulation Queue)
  | 0, simulation => .ok simulation
  | fuel + 1, simulation =>
    if allQueuesReachedEnd simulation.frontTasks then .ok simulation
    else
      let (readyOps, frontTasks) := findReadyOps simulation.barrierInfo
        (remaining simulation.frontTasks) simulation.frontTasks
      if readyOps.isEmpty then .error .simulateExecution
      else
        simulateQueues orderByConsumption fuel
          (readyOps.foldl (executeReadyOp orderByConsumption) { simulation with frontTasks })

/-- The orders that are found. -/
structure ExecutionOrder where
  newTaskOpOrder : List Nat
  newBarrierOrder : List Nat
deriving DecidableEq

/-- No task lists the barrier. -/
def hasNoUse (info : BarrierInfo Queue) (barrierInd : Nat) : Bool :=
  (info.getBarrierProducers barrierInd).isEmpty && (info.getBarrierConsumers barrierInd).isEmpty

def simulateExecution [LinearOrder Queue] (info : BarrierInfo Queue) (orderByConsumption : Bool) :
    Except OrderFailure ExecutionOrder := do
  let initial : Simulation Queue := ⟨info, (getTaskOpQueues info).toList, [], [], ∅⟩
  let simulation ← simulateQueues orderByConsumption (info.getNumOfTasks + 1) initial
  if simulation.newTaskOpOrder.length ≠ info.getNumOfTasks then
    .error (.orderTasks info.getNumOfTasks simulation.newTaskOpOrder.length)
  let barriersWithNoUse := ((List.range info.getNumOfVirtualBarriers).filter (hasNoUse info)).length
  if simulation.newBarrierOrder.length ≠ info.getNumOfVirtualBarriers - barriersWithNoUse then
    .error (.orderBarriers (info.getNumOfVirtualBarriers - barriersWithNoUse)
      simulation.newBarrierOrder.length)
  return ⟨simulation.newTaskOpOrder, simulation.newBarrierOrder⟩

/-! ### The reordered operations -/

/-- The barriers in their new order. Those that are not moved come after the others. -/
def barrierOrder (info : BarrierInfo Queue) (newBarrierOrder : List Nat) : List Nat :=
  newBarrierOrder ++
    (List.range info.getNumOfVirtualBarriers).filter fun barrierInd => barrierInd ∉ newBarrierOrder

/-- The operation of a task after `updateIR`, where a barrier is its place in an order. -/
def updatedTaskOp (info : BarrierInfo Queue) (barriers : List Nat) (taskInd : Nat)
    (taskOp : TaskOp Queue) : TaskOp Queue :=
  { taskOp with
    waitBarriers := (info.getWaitBarriers taskInd).elements.map fun bar => barriers.idxOf bar
    updateBarriers := (info.getUpdateBarriers taskInd).elements.map fun bar => barriers.idxOf bar }

def reorderedTaskOps (info : BarrierInfo Queue) (order : ExecutionOrder) : List (TaskOp Queue) :=
  let barriers := barrierOrder info order.newBarrierOrder
  order.newTaskOpOrder.filterMap fun taskInd =>
    info.allTaskOps[taskInd]?.map (updatedTaskOp info barriers taskInd)

/-- The order in which the operations are left, and the maps built from them. -/
def orderExecutionTasksAndBarriers [LinearOrder Queue] (info : BarrierInfo Queue)
    (orderByConsumption : Bool) : Except OrderFailure (ExecutionOrder × BarrierInfo Queue) := do
  let order ← simulateExecution info orderByConsumption
  match buildBarrierMaps (reorderedTaskOps info order) info.getNumOfVirtualBarriers with
  | .ok rebuilt => return (order, rebuilt)
  | .error failure => .error (.rebuild failure)

/-! ### The queues -/

open BarrierInfo Bool List Nat

variable {Queue : Type} {info : BarrierInfo Queue}

def queueOf (info : BarrierInfo Queue) (task : Nat) : Option Queue :=
  info.allTaskOps[task]?.map TaskOp.queueType

variable {task : Nat}

theorem queueOf_isSome_iff :
    (queueOf info task).isSome = true ↔ task < info.getNumOfTasks := by
  unfold queueOf getNumOfTasks
  rw [Option.isSome_map, isSome_getElem?]

theorem lt_of_queueOf {queue : Queue} (own : queueOf info task = some queue) :
    task < info.getNumOfTasks :=
  queueOf_isSome_iff.mp (Option.isSome_iff_exists.mpr ⟨queue, own⟩)

section Fronts

variable [LinearOrder Queue]

def waitingTasks (info : BarrierInfo Queue) (done : List Nat) (queue : Queue) : List Nat :=
  (List.range info.getNumOfTasks).filter fun task =>
    decide (queueOf info task = some queue) && decide (task ∉ done)

theorem mem_waitingTasks {done : List Nat} {queue : Queue} :
    task ∈ waitingTasks info done queue ↔ queueOf info task = some queue ∧ task ∉ done := by
  unfold waitingTasks
  rw [List.mem_filter, mem_range, and_eq_true, decide_eq_true_eq, decide_eq_true_eq]
  exact and_iff_right_of_imp fun both => lt_of_queueOf both.1

theorem waitingTasks_pairwise (info : BarrierInfo Queue) (done : List Nat) (queue : Queue) :
    (waitingTasks info done queue).Pairwise (· < ·) :=
  List.Pairwise.filter _ pairwise_lt_range

theorem waitingTasks_append (done : List Nat) (task : Nat) (queue : Queue) :
    waitingTasks info (done ++ [task]) queue =
      (waitingTasks info done queue).filter fun other => decide (other ≠ task) := by
  unfold waitingTasks
  rw [filter_filter]
  refine filter_congr fun other _ => ?_
  rw [← coe_iff_coe]
  simp only [mem_append, mem_singleton, and_eq_true, decide_eq_true_eq]
  tauto

/-- Every queue has the tasks of its type that have not been executed. -/
structure Fronts (info : BarrierInfo Queue) (done : List Nat)
    (frontTasks : List (Queue × List Nat)) : Prop where
  keys : (frontTasks.map Prod.fst).Nodup
  covers : ∀ task queue, queueOf info task = some queue → queue ∈ frontTasks.map Prod.fst
  left : ∀ entry ∈ frontTasks, entry.2 = waitingTasks info done entry.1

/-! ### The queues at the start -/

variable {taskOp : TaskOp Queue}

omit [LinearOrder Queue] in
theorem queueOf_eq (found : info.allTaskOps[task]? = some taskOp) :
    queueOf info task = some taskOp.queueType := by
  unfold queueOf
  rw [found, Option.map_some]

/-- What the queues are after the first tasks. -/
structure QueuesBelow (info : BarrierInfo Queue) (count : Nat)
    (taskOpQueues : Std.TreeMap Queue (List Nat)) : Prop where
  mem : ∀ queue, queue ∈ taskOpQueues ↔ ∃ task < count, queueOf info task = some queue
  getD : ∀ queue, taskOpQueues.getD queue [] =
    (List.range count).filter fun task => decide (queueOf info task = some queue)

theorem QueuesBelow.insert {count : Nat} {taskOpQueues : Std.TreeMap Queue (List Nat)}
    (below : QueuesBelow info count taskOpQueues) (found : info.allTaskOps[count]? = some taskOp) :
    QueuesBelow info (count + 1) (taskOpQueues.insert taskOp.queueType
      (taskOpQueues.getD taskOp.queueType [] ++ [count])) := by
  have own := queueOf_eq found
  refine ⟨fun queue => ?_, fun queue => ?_⟩
  · rw [Std.TreeMap.mem_insert, below.mem, Std.compare_eq_iff_eq]
    constructor
    · rintro (same | ⟨task, before, listed⟩)
      · exact ⟨count, lt_succ_self count, same ▸ own⟩
      · exact ⟨task, lt_succ_of_lt before, listed⟩
    · rintro ⟨task, before, listed⟩
      rcases Nat.lt_succ_iff_lt_or_eq.mp before with earlier | same
      · exact .inr ⟨task, earlier, listed⟩
      · rw [same, own] at listed
        exact .inl (Option.some.inj listed)
  · rw [Std.TreeMap.getD_insert, range_succ, filter_append, filter_singleton, own, ← below.getD]
    by_cases same : taskOp.queueType = queue
    · rw [if_pos (Std.compare_eq_iff_eq.mpr same), same, decide_eq_true rfl, cond_true]
    · rw [if_neg fun equal => same (Std.compare_eq_iff_eq.mp equal),
        decide_eq_false fun equal => same (Option.some.inj equal), cond_false, append_nil]

theorem getTaskOpQueues_below (info : BarrierInfo Queue) :
    QueuesBelow info info.getNumOfTasks (getTaskOpQueues info) := by
  have start : QueuesBelow info 0 ∅ := ⟨by simp, by simp⟩
  have run : QueuesBelow info (0 + info.allTaskOps.length) (getTaskOpQueues info) := by
    refine foldl_zipIdx (QueuesBelow info) info.allTaskOps 0 ∅ start ?_
    intro idx taskOp found taskOpQueues below
    rw [zero_add] at below ⊢
    exact below.insert found
  rw [zero_add] at run
  exact run

theorem fronts_getTaskOpQueues (info : BarrierInfo Queue) :
    Fronts info [] (getTaskOpQueues info).toList := by
  have below := getTaskOpQueues_below info
  have entries : ∀ entry : Queue × List Nat, entry ∈ (getTaskOpQueues info).toList ↔
      (getTaskOpQueues info)[entry.1]? = some entry.2 :=
    fun entry => Std.TreeMap.mem_toList_iff_getElem?_eq_some
  constructor
  · rw [List.Nodup, pairwise_map]
    refine Std.TreeMap.ordered_keys_toList.imp fun before same => ?_
    exact absurd (compare_lt_iff_lt.mp before) (same ▸ lt_irrefl _)
  · intro task queue own
    have present := (below.mem queue).mpr ⟨task, lt_of_queueOf own, own⟩
    obtain ⟨tasks, found⟩ := Option.isSome_iff_exists.mp
      (Std.TreeMap.mem_iff_isSome_getElem?.mp present)
    exact mem_map.mpr ⟨(queue, tasks), (entries (queue, tasks)).mpr found, rfl⟩
  · intro entry mem
    have listed := below.getD entry.1
    rw [Std.TreeMap.getD_eq_getD_getElem?, (entries entry).mp mem, Option.getD_some] at listed
    rw [listed]
    refine filter_congr fun task _ => ?_
    rw [decide_eq_true not_mem_nil, Bool.and_true]

/-! ### Taking a front task -/

theorem Fronts.take {done : List Nat} {before after : List (Queue × List Nat)} {queue : Queue}
    {rest : List Nat} (fronts : Fronts info done (before ++ (queue, task :: rest) :: after)) :
    queueOf info task = some queue ∧ task ∉ done ∧
      (∀ earlier < task, queueOf info earlier = some queue → earlier ∈ done) ∧
      Fronts info (done ++ [task]) (before ++ (queue, rest) :: after) := by
  have here := fronts.left (queue, task :: rest) (mem_append_right _ mem_cons_self)
  dsimp only at here
  obtain ⟨own, fresh⟩ := mem_waitingTasks.mp (here ▸ mem_cons_self)
  have sorted := waitingTasks_pairwise info done queue
  rw [← here, pairwise_cons] at sorted
  refine ⟨own, fresh, fun earlier less listed => ?_, ?_⟩
  · by_contra missing
    have mem : earlier ∈ task :: rest := here ▸ mem_waitingTasks.mpr ⟨listed, missing⟩
    rcases mem_cons.mp mem with same | later
    · omega
    · have greater := sorted.1 earlier later
      omega
  · have keys := fronts.keys
    have names : (before ++ (queue, rest) :: after).map Prod.fst =
        (before ++ (queue, task :: rest) :: after).map Prod.fst := by
      rw [map_append, map_append, map_cons, map_cons]
    refine ⟨names ▸ fronts.keys, names ▸ fronts.covers, fun entry mem => ?_⟩
    rw [waitingTasks_append]
    -- The key of another entry is another queue.
    have others : ∀ entry ∈ before ++ after, entry.1 ≠ queue := by
      intro entry mem same
      rw [map_append, map_cons, nodup_middle, nodup_cons, ← map_append]
        at keys
      exact keys.1 (mem_map.mpr ⟨entry, mem, same⟩)
    rcases mem_append.mp mem with inBefore | inRest
    · have old := fronts.left entry (mem_append_left _ inBefore)
      rw [← old, eq_comm, filter_eq_self]
      intro other listed
      refine decide_eq_true fun same => ?_
      rw [old, same] at listed
      exact others entry (mem_append_left _ inBefore)
        (Option.some.inj ((mem_waitingTasks.mp listed).1.symm.trans own))
    · rcases mem_cons.mp inRest with same | inAfter
      · rw [same]
        rw [← here, filter_cons_of_neg (by simp), eq_comm, filter_eq_self]
        exact fun other listed => decide_eq_true (sorted.1 other listed).ne'
      · have old := fronts.left entry
          (mem_append_right _ (mem_cons_of_mem _ inAfter))
        rw [← old, eq_comm, filter_eq_self]
        intro other listed
        refine decide_eq_true fun same => ?_
        rw [old, same] at listed
        exact others entry (mem_append_right _ inAfter)
          (Option.some.inj ((mem_waitingTasks.mp listed).1.symm.trans own))

end Fronts

/-! ### Searching for ready operations -/

/-- Front tasks that are ready are taken one after the other. -/
inductive TakesReady (Ready : Nat → Prop) :
    List (Queue × List Nat) → List Nat → List (Queue × List Nat) → Prop
  | nothing (frontTasks : List (Queue × List Nat)) : TakesReady Ready frontTasks [] frontTasks
  | take {before after last : List (Queue × List Nat)} {queue : Queue} {task : Nat}
      {rest readyOps : List Nat} : Ready task →
      TakesReady Ready (before ++ (queue, rest) :: after) readyOps last →
      TakesReady Ready (before ++ (queue, task :: rest) :: after) (task :: readyOps) last

variable {Ready : Nat → Prop} {frontTasks middle last : List (Queue × List Nat)}
  {readyOps later : List Nat}

theorem TakesReady.cons (entry : Queue × List Nat)
    (takes : TakesReady Ready frontTasks readyOps last) :
    TakesReady Ready (entry :: frontTasks) readyOps (entry :: last) := by
  induction takes with
  | nothing => exact .nothing _
  | @take before after last queue task rest readyOps ready _ ih =>
    rw [← cons_append] at ih ⊢
    exact .take ready ih

theorem TakesReady.trans (first : TakesReady Ready frontTasks readyOps middle)
    (second : TakesReady Ready middle later last) :
    TakesReady Ready frontTasks (readyOps ++ later) last := by
  induction first with
  | nothing => exact second
  | take ready _ ih => exact .take ready (ih second)

theorem TakesReady.eq_of_nil (takes : TakesReady Ready frontTasks [] last) : last = frontTasks := by
  cases takes
  rfl

theorem remaining_append (first second : List (Queue × List Nat)) :
    remaining (first ++ second) = remaining first + remaining second := by
  unfold remaining
  rw [map_append, sum_append]

theorem TakesReady.remaining_eq (takes : TakesReady Ready frontTasks readyOps last) :
    remaining frontTasks = readyOps.length + remaining last := by
  induction takes with
  | nothing => rw [length_nil, zero_add]
  | @take before after last queue task rest readyOps ready _ ih =>
    rw [remaining_append] at ih ⊢
    unfold remaining at ih ⊢
    rw [map_cons, sum_cons] at ih ⊢
    dsimp only at ih ⊢
    rw [length_cons, length_cons]
    omega

/-- The front task waits for nothing. -/
def WaitsForNothing (info : BarrierInfo Queue) (task : Nat) : Prop :=
  (info.getWaitBarriers task).isEmpty = true

theorem takeReady_takes (info : BarrierInfo Queue) (frontTasks : List (Queue × List Nat)) :
    TakesReady (WaitsForNothing info) frontTasks (takeReady info frontTasks).1
      (takeReady info frontTasks).2 := by
  induction frontTasks with
  | nil => exact .nothing []
  | cons entry others ih =>
    obtain ⟨queue, tasks⟩ := entry
    cases tasks with
    | nil => exact ih.cons _
    | cons task rest =>
      unfold takeReady
      dsimp only
      split
      · next ready =>
        rw [← nil_append ((queue, task :: rest) :: others)]
        exact .take ready (ih.cons _)
      · exact ih.cons _

theorem takeReady_ne_nil (frontTasks : List (Queue × List Nat))
    (notWaiting : allQueuesWaiting info frontTasks = false) :
    (takeReady info frontTasks).1 ≠ [] := by
  induction frontTasks with
  | nil => cases notWaiting
  | cons entry others ih =>
    obtain ⟨queue, tasks⟩ := entry
    unfold allQueuesWaiting at notWaiting ih
    rw [all_cons, and_eq_false_iff] at notWaiting
    cases tasks with
    | nil =>
      rcases notWaiting with here | there
      · cases here
      · exact ih there
    | cons task rest =>
      unfold takeReady
      dsimp only
      split
      · exact cons_ne_nil _ _
      · next waits =>
        rcases notWaiting with here | there
        · rw [isReady, not_eq_false'] at here
          exact absurd here waits
        · exact ih there

theorem findReadyOps_takes (info : BarrierInfo Queue) (fuel : Nat) :
    ∀ frontTasks : List (Queue × List Nat), TakesReady (WaitsForNothing info) frontTasks
      (findReadyOps info fuel frontTasks).1 (findReadyOps info fuel frontTasks).2 := by
  induction fuel with
  | zero => exact fun frontTasks => .nothing frontTasks
  | succ fuel ih =>
    intro frontTasks
    unfold findReadyOps
    split
    · exact .nothing frontTasks
    · exact (takeReady_takes info frontTasks).trans (ih _)

theorem findReadyOps_waiting (info : BarrierInfo Queue) (fuel : Nat) : ∀ frontTasks : List
    (Queue × List Nat),
    remaining frontTasks ≤ fuel →
      allQueuesWaiting info (findReadyOps info fuel frontTasks).2 = true := by
  induction fuel with
  | zero =>
    intro frontTasks few
    unfold findReadyOps allQueuesWaiting
    rw [all_eq_true]
    intro entry mem
    have none : entry.2.length = 0 :=
      List.sum_eq_zero_iff_forall_eq_nat.mp (le_zero.mp few) _
        (mem_map.mpr ⟨entry, mem, rfl⟩)
    rw [isReady, length_eq_zero_iff.mp none]
    rfl
  | succ fuel ih =>
    intro frontTasks few
    unfold findReadyOps
    split
    · next waiting => exact waiting
    · next notWaiting =>
      refine ih _ ?_
      have fewer := (takeReady_takes info frontTasks).remaining_eq
      have some := length_pos_of_ne_nil
        (takeReady_ne_nil frontTasks (eq_false_of_not_eq_true notWaiting))
      omega

end BarrierLegalization

end NpuPlugin
