/-
This file is about the order of the tasks under barriers and FIFO queues together: of two tasks of
one queue the one with the smaller index comes first. Every bit of the control map stands for a
path.
-/

import NpuPlugin.BarrierInfo.OptimizeOrder
import NpuPlugin.BarrierLegalization.Model

namespace NpuPlugin.BarrierInfo

open BarrierLegalization Bool List Relation Run

variable {Queue : Type} {info after : BarrierInfo Queue} {queues : Queue → Bool}

/-- The first task comes earlier on a queue that counts. -/
def FifoOrder (info : BarrierInfo Queue) (queues : Queue → Bool) (task child : Nat) : Prop :=
  task < child ∧ ∃ queue, queues queue = true ∧ queueOf info task = some queue ∧
    queueOf info child = some queue

/-- The direct order of barriers and queues. -/
def OrderedWith (info : BarrierInfo Queue) (queues : Queue → Bool) (task child : Nat) : Prop :=
  info.Controls task child ∨ info.FifoOrder queues task child

/-- A chain of barriers and queues leads from the first task to the second one. -/
def PrecedesWith (info : BarrierInfo Queue) (queues : Queue → Bool) : Nat → Nat → Prop :=
  TransGen (info.OrderedWith queues)

theorem fifoOrder_congr (same : after.allTaskOps = info.allTaskOps) :
    after.FifoOrder queues = info.FifoOrder queues := by
  funext task child
  unfold FifoOrder queueOf
  rw [same]

variable {task child : Nat}

theorem FifoOrder.mono {more : Queue → Bool} (covers : ∀ queue, queues queue = true →
    more queue = true) (fifo : info.FifoOrder queues task child) :
    info.FifoOrder more task child := by
  obtain ⟨less, queue, counts, own, other⟩ := fifo
  exact ⟨less, queue, covers queue counts, own, other⟩

/-- The order only needs a path for each direct order of a barrier. -/
theorem precedesWith_of_controls (same : after.allTaskOps = info.allTaskOps)
    (controls : ∀ {task child : Nat}, info.Controls task child →
      after.PrecedesWith queues task child) (path : info.PrecedesWith queues task child) :
    after.PrecedesWith queues task child := by
  refine TransGen.closed (p := after.OrderedWith queues) ?_ _ _ path
  rintro first second (controlled | fifo)
  · exact controls controlled
  · exact .single (.inr (fifoOrder_congr same ▸ fifo))

/-- With index-ordered barriers the whole order leads to larger indices. -/
theorem IndexOrdered.increasing (ordered : info.IndexOrdered) (queues : Queue → Bool) :
    Reachability.Increasing (info.OrderedWith queues) := by
  rintro lower upper (controlled | fifo)
  · exact ordered.lt controlled
  · exact fifo.1

theorem IndexOrdered.lt_of_precedesWith (ordered : info.IndexOrdered)
    (path : info.PrecedesWith queues task child) : task < child :=
  Reachability.Increasing.lt_of_transGen (ordered.increasing queues) path

/-! ### Tasks that control others -/

/-- What the functions on tasks of one block throw. -/
inductive ControlFailure
  | maps (failure : Failure)
  | invalidTaskRange (blockStartInd blockEndInd : Nat)
  | taskOutOfRange (taskInd : Nat)
  | queueMapNotInitialized
  | invalidOptimization (emptySide : Side) (barrierInd : Nat)
deriving DecidableEq, Repr

/-- `_taskQueueTypeMap`: the tasks of each DMA queue. -/
structure TaskQueueTypeMap (Queue : Type) where
  taskCount : Nat
  entries : List (Queue × BitVec taskCount)

/-- The control map of a block that starts at the offset. -/
structure TaskControlMap where
  offset : Nat
  width : Nat
  rows : List (BitVec width)

variable {Queue : Type} (info : BarrierInfo Queue)

/-! ### The tasks of the queues -/

def setTask [DecidableEq Queue] {taskCount : Nat} (entries : List (Queue × BitVec taskCount))
    (task : TaskOp Queue × Nat) : List (Queue × BitVec taskCount) :=
  entries.map fun entry =>
    if entry.1 = task.1.queueType then (entry.1, entry.2 ||| BitVec.twoPow taskCount task.2)
    else entry

/-- `dmaQueueTypes` has a queue type for each port and channel of the device. -/
def buildTaskQueueTypeMap [DecidableEq Queue] (dmaQueueTypes : List Queue)
    (considerTaskFifoDependency : Bool) : TaskQueueTypeMap Queue :=
  let empty : List (Queue × BitVec info.getNumOfTasks) :=
    dmaQueueTypes.map fun queueType => (queueType, 0)
  ⟨info.getNumOfTasks, if considerTaskFifoDependency then
    info.allTaskOps.zipIdx.reverse.foldl setTask empty else empty⟩

/-! ### The control map -/

/-- The set bits of a range, counted from its start. The search for the first bit ends before the
last index. -/
def copyBitsRange {taskCount : Nat} (mask : BitVec taskCount) (fromIdx toIdx : Nat) : List Nat :=
  let bits := (taskRange fromIdx toIdx).filter mask.getLsbD
  if bits.head? = some toIdx then [] else bits.map (· - fromIdx)

/-- Every task of a queue controls the later ones. -/
def setLater {width : Nat} : List Nat → List (BitVec width) → List (BitVec width)
  | [], rows => rows
  | taskInd :: rest, rows =>
    setLater rest (rows.modify taskInd fun row =>
      rest.foldl (fun row nextTaskInd => row ||| BitVec.twoPow width nextTaskInd) row)

/-- A task controls the consumers of its update barriers. -/
def setConsumers (blockStartInd blockEndInd : Nat) {width : Nat} (rows : List (BitVec width))
    (taskInd : Nat) : List (BitVec width) :=
  (info.neighbours .update taskInd).foldl (fun rows consumerIdx =>
    if inRange blockStartInd blockEndInd consumerIdx then
      rows.modify (taskInd - blockStartInd)
        (· ||| BitVec.twoPow width (consumerIdx - blockStartInd))
    else rows) rows

/-- A task controls what the consumers of its update barriers control. -/
def joinChildren (blockStartInd blockEndInd : Nat) {width : Nat} (rows : List (BitVec width))
    (taskInd : Nat) : Except ControlFailure (List (BitVec width)) :=
  if taskInd = blockEndInd && info.isSyncPoint taskInd then .ok rows
  else (info.neighbours .update taskInd).foldlM (fun rows childTaskInd =>
    if inRange blockStartInd blockEndInd childTaskInd then
      .ok (rows.modify (taskInd - blockStartInd) (· ||| rows.getD (childTaskInd - blockStartInd) 0))
    else .error (.maps (.outsideOfRange taskInd childTaskInd blockStartInd blockEndInd))) rows

variable (taskQueueTypeMap : TaskQueueTypeMap Queue)

def buildTaskControlMap (blockIdx : Nat)
    (considerTaskFifoDependency : Bool) : Except ControlFailure TaskControlMap := do
  let (blockStartInd, blockEndInd) ←
    (info.getControlGraphBlockTaskRange blockIdx true true).mapError .maps
  if blockEndInd < blockStartInd then .error (.invalidTaskRange blockStartInd blockEndInd)
  let width := blockEndInd - blockStartInd + 1
  let rows : List (BitVec width) := List.replicate width 0
  let rows := if considerTaskFifoDependency then
      taskQueueTypeMap.entries.foldl (fun rows item =>
        setLater (copyBitsRange item.2 blockStartInd blockEndInd) rows) rows
    else rows
  let tasks := (taskRange blockStartInd blockEndInd).reverse
  let rows := tasks.foldl (info.setConsumers blockStartInd blockEndInd) rows
  let rows ← tasks.foldlM (info.joinChildren blockStartInd blockEndInd) rows
  return ⟨blockStartInd, width, rows⟩

/-- The row or bit of a task. Below the offset the difference wraps around and is out of range. -/
def TaskControlMap.position (taskControlMap : TaskControlMap) (taskInd : Nat) :
    Except ControlFailure Nat :=
  if taskInd < taskControlMap.offset ∨
      taskControlMap.rows.length ≤ taskInd - taskControlMap.offset then
    .error (.taskOutOfRange taskInd)
  else .ok (taskInd - taskControlMap.offset)

/-- The tasks are not counted from the offset yet. -/
def controlPathExistsBetweenTasksInSameBlock (taskControlMap : TaskControlMap)
    (taskAInd taskBInd : Nat) (biDirection : Bool) : Except ControlFailure Bool := do
  let taskA ← taskControlMap.position taskAInd
  let taskB ← taskControlMap.position taskBInd
  let forward := (taskControlMap.rows.getD taskA 0).getLsbD taskB
  return forward || (biDirection && (taskControlMap.rows.getD taskB 0).getLsbD taskA)

/-! ### Tasks of one queue -/

def haveSameImplicitDependencyTaskQueueType (taskInds : TaskSet) :
    Except ControlFailure (Option Queue) :=
  match taskInds.elements with
  | [] => .ok none
  | firstTaskInd :: _ =>
    if taskQueueTypeMap.entries.isEmpty then .error .queueMapNotInitialized
    else match taskQueueTypeMap.entries.find? fun item => item.2.getLsbD firstTaskInd with
      | none => .ok none
      | some item =>
        if taskInds.elements.all fun taskInd =>
            item.2.getLsbD taskInd && !info.isSyncPoint taskInd then
          .ok (some item.1)
        else .ok none

def inImplicitQueueTypeDependencyList (taskList : TaskSet) : Except ControlFailure Bool :=
  if taskQueueTypeMap.entries.isEmpty then .error .queueMapNotInitialized
  else .ok (taskList.elements.all fun taskInd =>
    taskQueueTypeMap.entries.any fun item => item.2.getLsbD taskInd)

def producersControlsAllConsumers (origProducers newConsumers origConsumers : TaskSet)
    (origWaitBarriersMap : List TaskSet) : Except ControlFailure Bool := do
  let consumersWithoutDirectControl := newConsumers.filter fun task => decide (task ∉ origConsumers)
  if consumersWithoutDirectControl.isEmpty then return true
  if origProducers.isEmpty then return false
  if !(← inImplicitQueueTypeDependencyList taskQueueTypeMap consumersWithoutDirectControl) then
    return false
  if !(← inImplicitQueueTypeDependencyList taskQueueTypeMap origProducers) then return false
  if consumersWithoutDirectControl.elements.min?.getD 0 ≤ origProducers.elements.max?.getD 0 then
    return false
  let anyProducerCanRunParallelWithConsumer := origProducers.elements.any fun producer =>
    consumersWithoutDirectControl.elements.any fun consumer =>
      (origWaitBarriersMap.getD producer ∅).sameElements (origWaitBarriersMap.getD consumer ∅)
  return !anyProducerCanRunParallelWithConsumer

def canBarriersBeMerged (barrierProducersA barrierConsumersA barrierProducersB
    barrierConsumersB : TaskSet) (origWaitBarriersMap : List TaskSet) :
    Except ControlFailure Bool := do
  if !(← producersControlsAllConsumers taskQueueTypeMap barrierProducersA barrierConsumersB
      barrierConsumersA origWaitBarriersMap) then
    return false
  if !(← producersControlsAllConsumers taskQueueTypeMap barrierProducersB barrierConsumersA
      barrierConsumersB origWaitBarriersMap) then
    return false
  return true

def getWaitBarriersMap : List TaskSet := info.waits.columns

/-! ### The control map -/

variable {Queue : Type} {info : BarrierInfo Queue} {queues : Queue → Bool}
  {after : BarrierInfo Queue}

theorem SameTasks.isSyncPoint (same : info.SameTasks after) (task : Nat) :
    after.isSyncPoint task = info.isSyncPoint task := by
  unfold BarrierInfo.isSyncPoint
  rw [same.blockSize, same.tasks]

theorem SameTasks.queueOf (same : info.SameTasks after) (task : Nat) :
    BarrierLegalization.queueOf after task = BarrierLegalization.queueOf info task := by
  unfold BarrierLegalization.queueOf
  rw [same.allTaskOps]

/-! ### The tasks of the queues -/

/-- The map has a mask with exactly the tasks of the queue for each queue type. -/
structure TaskQueueTypeMap.Describes (taskQueueTypeMap : TaskQueueTypeMap Queue)
    (info : BarrierInfo Queue) (dmaQueueTypes : List Queue) : Prop where
  keys : taskQueueTypeMap.entries.map Prod.fst = dmaQueueTypes
  bits : ∀ item ∈ taskQueueTypeMap.entries, ∀ task,
    item.2.getLsbD task = true ↔ queueOf info task = some item.1

variable {taskQueueTypeMap : TaskQueueTypeMap Queue} {dmaQueueTypes : List Queue}

section

variable (describes : taskQueueTypeMap.Describes info dmaQueueTypes)
include describes

theorem TaskQueueTypeMap.Describes.of_same (same : info.SameTasks after) :
    taskQueueTypeMap.Describes after dmaQueueTypes := by
  refine ⟨describes.keys, fun item mem task => ?_⟩
  rw [same.queueOf]
  exact describes.bits item mem task

theorem TaskQueueTypeMap.Describes.isEmpty (available : dmaQueueTypes ≠ []) :
    taskQueueTypeMap.entries.isEmpty = false := by
  rw [isEmpty_eq_false_iff]
  intro none
  have keys := describes.keys
  rw [none] at keys
  exact available keys.symm

end

theorem foldl_setTask [DecidableEq Queue] {taskCount : Nat} (tasks : List (TaskOp Queue × Nat))
    (entries : List (Queue × BitVec taskCount)) :
    tasks.foldl setTask entries = entries.map fun entry =>
      (entry.1, (tasks.filter fun task => decide (entry.1 = task.1.queueType)).foldl
        (fun mask task => mask ||| BitVec.twoPow taskCount task.2) entry.2) := by
  induction tasks generalizing entries with
  | nil => simp
  | cons task rest ih =>
    rw [foldl_cons, ih, setTask, List.map_map]
    refine map_congr_left fun entry _ => ?_
    by_cases own : entry.1 = task.1.queueType
    · simp [own]
    · simp [own]

theorem buildTaskQueueTypeMap_describes [DecidableEq Queue] (info : BarrierInfo Queue)
    (dmaQueueTypes : List Queue) :
    (info.buildTaskQueueTypeMap dmaQueueTypes true).Describes info dmaQueueTypes := by
  have entries : (info.buildTaskQueueTypeMap dmaQueueTypes true).entries =
      dmaQueueTypes.map fun queueType => (queueType, (info.allTaskOps.zipIdx.reverse.filter
        fun task => decide (queueType = task.1.queueType)).foldl
          (fun mask task => mask ||| BitVec.twoPow info.getNumOfTasks task.2) 0) := by
    unfold buildTaskQueueTypeMap
    dsimp only
    rw [if_pos rfl, foldl_setTask, List.map_map]
    rfl
  constructor
  · exact (congrArg (List.map Prod.fst) entries).trans ((List.map_map ..).trans (map_id _))
  · intro item mem task
    rw [entries] at mem
    obtain ⟨queueType, _, rfl⟩ := mem_map.mp mem
    refine (BitMask.getLsbD_foldl_set Prod.snd _ (0 : BitVec info.getNumOfTasks) task).trans ?_
    rw [or_iff_right (by simp)]
    simp only [List.mem_filter, mem_reverse, mem_zipIdx_iff_getElem?, decide_eq_true_eq]
    constructor
    · rintro ⟨_, ⟨taskOp, idx⟩, ⟨found, own⟩, rfl⟩
      rw [queueOf_eq found, own]
    · intro own
      have inside : task < info.allTaskOps.length := lt_of_queueOf own
      refine ⟨inside, (info.allTaskOps[task], task), ⟨getElem?_eq_getElem inside, ?_⟩, rfl⟩
      rw [queueOf_eq (getElem?_eq_getElem inside)] at own
      exact (Option.some.inj own).symm

/-! ### Every bit stands for a path -/

/-- A row and a bit of it that is set are the two ends of a path. -/
def SoundRows (info : BarrierInfo Queue) (queues : Queue → Bool) (lower : Nat) {width : Nat}
    (rows : List (BitVec width)) : Prop :=
  ∀ row bit, (rows.getD row 0).getLsbD bit = true →
    info.PrecedesWith queues (lower + row) (lower + bit)

section Rows

variable {lower upper width : Nat} {rows : List (BitVec width)}

theorem getD_modify (rows : List (BitVec width)) (change : BitVec width → BitVec width)
    (idx row : Nat) : (rows.modify idx change).getD row 0 = rows.getD row 0 ∨
      idx = row ∧ (rows.modify idx change).getD row 0 = change (rows.getD row 0) := by
  rw [getD_eq_getElem?_getD, getD_eq_getElem?_getD, getElem?_modify]
  by_cases inside : row < rows.length
  · rw [getElem?_eq_getElem inside]
    by_cases same : idx = row
    · exact .inr ⟨same, by simp [same]⟩
    · exact .inl (by simp [same])
  · rw [getElem?_eq_none (not_lt.mp inside)]
    exact .inl rfl

theorem SoundRows.modify (sound : info.SoundRows queues lower rows) (idx : Nat)
    (change : BitVec width → BitVec width)
    (added : ∀ bit, (change (rows.getD idx 0)).getLsbD bit = true →
      info.PrecedesWith queues (lower + idx) (lower + bit)) :
    info.SoundRows queues lower (rows.modify idx change) := by
  intro row bit set
  rcases getD_modify rows change idx row with same | ⟨equal, changed⟩
  · exact sound row bit (same ▸ set)
  · rw [changed, ← equal] at set
    exact equal ▸ added bit set

theorem SoundRows.setLater (sound : info.SoundRows queues lower rows) {tasks : List Nat}
    (fifo : tasks.Pairwise fun task next =>
      info.PrecedesWith queues (lower + task) (lower + next)) :
    info.SoundRows queues lower (setLater tasks rows) := by
  induction tasks generalizing rows with
  | nil => exact sound
  | cons task rest ih =>
    rw [pairwise_cons] at fifo
    refine ih (sound.modify task _ fun bit set => ?_) fifo.2
    rcases (BitMask.getLsbD_foldl_set id rest (rows.getD task 0) bit).mp set with
      before | ⟨_, next, later, same⟩
    · exact sound task bit before
    · exact same ▸ fifo.1 next later

variable {task : Nat}

theorem SoundRows.setConsumers (valid : info.Valid) (sound : info.SoundRows queues lower rows)
    (below : lower ≤ task) :
    info.SoundRows queues lower (info.setConsumers lower upper rows task) := by
  refine foldlRecOn (motive := info.SoundRows queues lower) _ _ sound
    fun rows before consumer mem => ?_
  split
  · next inside =>
    refine before.modify _ _ fun bit set => ?_
    rw [BitVec.getLsbD_or, BitVec.getLsbD_twoPow, or_eq_true, and_eq_true,
      decide_eq_true_eq, decide_eq_true_eq] at set
    rcases set with old | ⟨_, same⟩
    · exact before _ bit old
    · have bounds := inRange_iff.mp inside
      have own : lower + (task - lower) = task := by omega
      have other : lower + bit = consumer := by omega
      rw [own, other]
      exact .single (.inl ((mem_neighbours valid).mp mem))
  · exact before

theorem joinChildren_preserves (Holds : List (BitVec width) → Prop)
    (each : ∀ child ∈ info.neighbours .update task, lower ≤ child → ∀ rows, Holds rows →
      Holds (rows.modify (task - lower) (· ||| rows.getD (child - lower) 0))) :
    Run.Preserves Holds fun rows => info.joinChildren lower upper rows task := by
  intro rows after holds res
  unfold joinChildren at res
  split at res
  · cases res
    exact holds
  · have children : Run.Preserves Holds fun rows =>
        (info.neighbours .update task).foldlM (fun rows child =>
          if inRange lower upper child then
            .ok (rows.modify (task - lower) (· ||| rows.getD (child - lower) 0))
          else .error (ControlFailure.maps (.outsideOfRange task child lower upper))) rows := by
      refine Run.Preserves.foldlM _ fun child mem rows after before step => ?_
      split at step
      · next inside =>
        cases step
        exact each child mem (inRange_iff.mp inside).1 rows before
      · cases step
    exact children rows after holds res

theorem SoundRows.joinChildren (valid : info.Valid) (below : lower ≤ task) :
    Run.Preserves (fun rows : List (BitVec width) => info.SoundRows queues lower rows)
      fun rows => info.joinChildren lower upper rows task := by
  refine joinChildren_preserves _ fun child mem childBelow rows before => ?_
  refine before.modify _ _ fun bit set => ?_
  rw [BitVec.getLsbD_or, or_eq_true] at set
  rcases set with old | joined
  · exact before _ bit old
  · have own : lower + (task - lower) = task := by omega
    have other : lower + (child - lower) = child := by omega
    have path := before _ bit joined
    rw [other] at path
    rw [own]
    exact .head (.inl ((mem_neighbours valid).mp mem)) path

end Rows

theorem copyBitsRange_pairwise {taskCount : Nat} {mask : BitVec taskCount} {queue : Queue}
    (counts : queues queue = true)
    (bits : ∀ task, mask.getLsbD task = true ↔ queueOf info task = some queue) (lower upper : Nat) :
    (copyBitsRange mask lower upper).Pairwise fun task next =>
      info.PrecedesWith queues (lower + task) (lower + next) := by
  unfold copyBitsRange
  dsimp only
  split
  · exact .nil
  · rw [pairwise_map]
    have sorted : ((taskRange lower upper).filter mask.getLsbD).Pairwise (· < ·) :=
      List.Pairwise.filter _ pairwise_lt_range'
    refine sorted.imp_of_mem fun {task next} mem nextMember less => ?_
    rw [mem_filter, mem_taskRange, bits] at mem nextMember
    have own : lower + (task - lower) = task := by omega
    have other : lower + (next - lower) = next := by omega
    rw [own, other]
    exact .single (.inr ⟨less, queue, counts, mem.2, nextMember.2⟩)

/-! ### The number of rows -/

variable {width : Nat} (lower upper : Nat)

theorem length_setLater (tasks : List Nat) (rows : List (BitVec width)) :
    (setLater tasks rows).length = rows.length := by
  induction tasks generalizing rows with
  | nil => rfl
  | cons task rest ih => rw [setLater, ih, length_modify]

theorem length_setConsumers (rows : List (BitVec width)) (task : Nat) :
    (info.setConsumers lower upper rows task).length = rows.length := by
  refine foldlRecOn (motive := fun after : List (BitVec width) => after.length = rows.length)
    _ _ rfl fun after same consumer _ => ?_
  split
  · rw [length_modify, same]
  · exact same

theorem length_joinChildren (width task size : Nat) :
    Run.Preserves (fun rows : List (BitVec width) => rows.length = size)
      fun rows => info.joinChildren lower upper rows task :=
  joinChildren_preserves _ fun _ _ _ _ same => (length_modify ..).trans same

/-! ### The map of a block -/

/-- What the control map says is a path; it has a row for each task from its offset to the last
task of the block. -/
structure TaskControlMap.Sound (taskControlMap : TaskControlMap) (info : BarrierInfo Queue)
    (queues : Queue → Bool) (lower upper : Nat) : Prop where
  offset : taskControlMap.offset = lower
  length : taskControlMap.rows.length = upper - lower + 1
  rows : info.SoundRows queues taskControlMap.offset taskControlMap.rows

theorem mapError_ok {First Second Value : Type} {wrap : First → Second} {run : Except First Value}
    {value : Value} : run.mapError wrap = .ok value ↔ run = .ok value := by
  cases run with
  | error failure => exact ⟨nofun, nofun⟩
  | ok found => exact ⟨fun same => by cases same; rfl, fun same => by cases same; rfl⟩

theorem soundRows_start (valid : info.Valid)
    (describes : taskQueueTypeMap.Describes info dmaQueueTypes)
    (covers : ∀ queue ∈ dmaQueueTypes, queues queue = true) (lower upper width size : Nat)
    (considerTaskFifoDependency : Bool) {rows : List (BitVec width)}
    (empty : rows = List.replicate size 0) :
    let rows := (taskRange lower upper).reverse.foldl (info.setConsumers lower upper)
      (if considerTaskFifoDependency then
        taskQueueTypeMap.entries.foldl (fun rows item =>
          setLater (copyBitsRange item.2 lower upper) rows) rows
      else rows)
    info.SoundRows queues lower rows ∧ rows.length = size := by
  have zero : info.SoundRows queues lower rows ∧ rows.length = size := by
    rw [empty]
    refine ⟨fun row bit set => ?_, length_replicate⟩
    simp at set
  refine foldlRecOn (motive := fun rows : List (BitVec width) =>
    info.SoundRows queues lower rows ∧ rows.length = size) _ _ ?_ fun rows before task mem => ?_
  · split
    · refine foldlRecOn (motive := fun rows : List (BitVec width) =>
        info.SoundRows queues lower rows ∧ rows.length = size) _ _ zero
        fun rows before item mem => ?_
      have key : item.1 ∈ dmaQueueTypes := describes.keys ▸ mem_map_of_mem mem
      exact ⟨before.1.setLater (copyBitsRange_pairwise (covers _ key)
        (describes.bits item mem) lower upper), (length_setLater _ _).trans before.2⟩
    · exact zero
  · have below := (mem_taskRange.mp (mem_reverse.mp mem)).1
    exact ⟨before.1.setConsumers valid below, (length_setConsumers ..).trans before.2⟩

variable {taskControlMap : TaskControlMap} {blockIdx lower upper task other : Nat}

theorem buildTaskControlMap_sound (valid : info.Valid)
    (describes : taskQueueTypeMap.Describes info dmaQueueTypes)
    (covers : ∀ queue ∈ dmaQueueTypes, queues queue = true) {considerTaskFifoDependency : Bool}
    (res : info.buildTaskControlMap taskQueueTypeMap blockIdx considerTaskFifoDependency =
      .ok taskControlMap) :
    ∃ lower upper, info.getControlGraphBlockTaskRange blockIdx true true = .ok (lower, upper) ∧
      taskControlMap.Sound info queues lower upper := by
  obtain ⟨⟨lower, upper⟩, range, res⟩ := bind_ok res
  refine ⟨lower, upper, mapError_ok.mp range, ?_⟩
  dsimp only at res
  split at res
  · cases res
  · obtain ⟨rows, joining, res⟩ := bind_ok res
    cases res
    obtain ⟨sound, length⟩ := soundRows_start valid describes covers lower upper
      (upper - lower + 1) (upper - lower + 1) considerTaskFifoDependency rfl
    refine ⟨rfl, ?_, ?_⟩
    · exact Run.Preserves.foldlM _ (fun task _ => length_joinChildren lower upper _ task
        (upper - lower + 1)) _ rows length joining
    · exact Run.Preserves.foldlM _ (fun task mem => SoundRows.joinChildren valid
        (mem_taskRange.mp (mem_reverse.mp mem)).1) _ rows sound joining

theorem controlPathExists_sound (sound : taskControlMap.Sound info queues lower upper)
    (found : controlPathExistsBetweenTasksInSameBlock taskControlMap task other false = .ok true) :
    info.PrecedesWith queues task other := by
  obtain ⟨row, rowOf, res⟩ := bind_ok found
  obtain ⟨bit, bitOf, res⟩ := bind_ok res
  have positions : ∀ {task position : Nat}, taskControlMap.position task = .ok position →
      task = taskControlMap.offset + position := by
    intro task position placed
    unfold TaskControlMap.position at placed
    split at placed
    · cases placed
    · cases placed
      omega
  dsimp only at res
  rw [Bool.false_and, Bool.or_false] at res
  rw [positions rowOf, positions bitOf]
  exact sound.rows row bit (Except.ok.inj res)

theorem controlPathExists_ok (sound : taskControlMap.Sound info queues lower upper)
    (inside : lower ≤ task ∧ task ≤ upper) (otherInside : lower ≤ other ∧ other ≤ upper) :
    ∃ found, controlPathExistsBetweenTasksInSameBlock taskControlMap task other false =
      .ok found := by
  have positions : ∀ {task : Nat}, lower ≤ task ∧ task ≤ upper →
      taskControlMap.position task = .ok (task - taskControlMap.offset) := by
    intro task inside
    unfold TaskControlMap.position
    rw [sound.offset, sound.length, if_neg (by omega)]
  unfold controlPathExistsBetweenTasksInSameBlock
  rw [positions inside, positions otherInside]
  exact ⟨_, rfl⟩

theorem buildTaskControlMap_ok (valid : info.Valid) (ordered : info.IndexOrdered)
    (respects : info.RespectsSplit) (placed : info.SyncTasksPlaced)
    (block : blockIdx < info.getControlGraphBlockCount) (taskQueueTypeMap : TaskQueueTypeMap Queue)
    (considerTaskFifoDependency : Bool) :
    ∃ taskControlMap, info.buildTaskControlMap taskQueueTypeMap blockIdx
      considerTaskFifoDependency = .ok taskControlMap := by
  obtain ⟨lower, upper, range, blockRange⟩ := getControlGraphBlockTaskRange_ok placed block
  have joins : ∀ rows : List (BitVec (upper - lower + 1)), ∃ after,
      (taskRange lower upper).reverse.foldlM (info.joinChildren lower upper) rows = .ok after := by
    intro rows
    refine (foldlM_ok (fun _ => True) _ (fun task mem rows _ => ?_) rows trivial).imp
      fun _ => And.left
    have bounds := mem_taskRange.mp (mem_reverse.mp mem)
    unfold joinChildren
    split
    · exact ⟨rows, rfl, trivial⟩
    · next regular =>
      rw [and_eq_true, decide_eq_true_eq] at regular
      refine foldlM_ok (fun _ => True) _ (fun child mem rows _ => ?_) rows trivial
      have inside := follows_inside .update valid ordered respects placed blockRange bounds.1
        bounds.2 ⟨regular, (mem_neighbours valid).mp mem⟩
      exact ⟨_, if_pos (inRange_iff.mpr inside), trivial⟩
  unfold buildTaskControlMap
  rw [mapError_ok.mpr range]
  simp only [bind, Except.bind]
  rw [if_neg blockRange.nonempty.not_gt]
  obtain ⟨rows, joining⟩ := joins ((taskRange lower upper).reverse.foldl
    (info.setConsumers lower upper) (if considerTaskFifoDependency then
      taskQueueTypeMap.entries.foldl (fun rows item =>
        setLater (copyBitsRange item.2 lower upper) rows)
        (replicate (upper - lower + 1) 0)
    else replicate (upper - lower + 1) 0))
  rw [joining]
  exact ⟨_, rfl⟩

end NpuPlugin.BarrierInfo
