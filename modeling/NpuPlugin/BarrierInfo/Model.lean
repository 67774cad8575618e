/-
This file models `BarrierInfo`: which tasks produce and which consume each virtual barrier, kept
from both sides, and the blocks into which synchronisation tasks divide the tasks. A task is its
index. The updates are the table of `_barrierProducerMap` and `_taskUpdateBarriers`, the waits the
one of `_barrierConsumerMap` and `_taskWaitBarriers`.
-/

import NpuPlugin.Library.IncidenceTable
import NpuPlugin.Library.Loop

namespace NpuPlugin

/-- The producers or consumers of a barrier, or the barriers of a task. -/
abbrev TaskSet := SmallSet Nat 16

/-- What is read of a `VPURT::TaskOp`: its queue, the slots it takes in a barrier, the barriers
it lists, and whether it carries the `sync-task` attribute. -/
structure TaskOp (Queue : Type) where
  queueType : Queue
  slotCount : Nat
  waitBarriers : List Nat
  updateBarriers : List Nat
  syncTask : Bool
deriving DecidableEq

structure BarrierInfo (Queue : Type) where
  allTaskOps : List (TaskOp Queue)
  controlGraphBlockSize : Nat
  syncTasksIds : List Nat
  updates : IncidenceTable 16
  waits : IncidenceTable 16
deriving DecidableEq

namespace BarrierInfo

/-- What is thrown. `undefined` stands for an index outside of a container and for a difference
of indices below zero, where the program has no defined behaviour. -/
inductive Failure
  | invalidBarrierOp (barrierInd : Nat)
  | syncTaskDifference (expected : Nat) (found : Nat)
  | invalidTaskBlock (blockInd : Nat)
  | emptyOptimizationRange
  | outsideOfRange (taskInd other lower upper : Nat)
  | invalidBarrierRange (barrierInd : Nat)
  | minimalBlockSize (blockSize : Nat)
  | alreadySplit (blockSize requested : Nat)
  | noProducers (barrierInd : Nat)
  | noConsumers (barrierInd : Nat)
  | consumersWithoutProducers (barrierInd : Nat)
  | undefined
deriving DecidableEq, Repr

/-- The two relations between barriers and tasks: a task produces its update barriers and
consumes its wait barriers. -/
inductive Side
  | update
  | wait
deriving DecidableEq, Repr

def Side.opposite : Side → Side
  | .update => .wait
  | .wait => .update

variable {Queue : Type} (info : BarrierInfo Queue)

/-! ### Reading and changing the maps -/

def table : Side → IncidenceTable 16
  | .update => info.updates
  | .wait => info.waits

def modifyTable (side : Side) (change : IncidenceTable 16 → IncidenceTable 16) :
    BarrierInfo Queue :=
  match side with
  | .update => { info with updates := change info.updates }
  | .wait => { info with waits := change info.waits }

def getNumOfTasks : Nat := info.allTaskOps.length

/-- `_allBarrierOps` has an entry for each entry of the maps. -/
def getNumOfVirtualBarriers : Nat := info.updates.rows.length

variable (taskInd : Nat) (barrierInd : Nat) (taskInds : TaskSet)

def getBarrierProducers : TaskSet := info.updates.row barrierInd

def getBarrierConsumers : TaskSet := info.waits.row barrierInd

def getUpdateBarriers : TaskSet := info.updates.column taskInd

def getWaitBarriers : TaskSet := info.waits.column taskInd

def addConsumer (barrierInd taskInd : Nat) : BarrierInfo Queue :=
  info.modifyTable .wait (·.link barrierInd taskInd)

def addConsumers : BarrierInfo Queue :=
  info.modifyTable .wait (·.linkAll barrierInd taskInds.elements)

def addProducer (barrierInd taskInd : Nat) : BarrierInfo Queue :=
  info.modifyTable .update (·.link barrierInd taskInd)

def addProducers : BarrierInfo Queue :=
  info.modifyTable .update (·.linkAll barrierInd taskInds.elements)

def removeProducer (barrierInd taskInd : Nat) : BarrierInfo Queue :=
  info.modifyTable .update (·.unlink barrierInd taskInd)

def removeProducers : BarrierInfo Queue :=
  info.modifyTable .update (·.unlinkAll barrierInd taskInds.elements)

def removeConsumer (barrierInd taskInd : Nat) : BarrierInfo Queue :=
  info.modifyTable .wait (·.unlink barrierInd taskInd)

def removeConsumers : BarrierInfo Queue :=
  info.modifyTable .wait (·.unlinkAll barrierInd taskInds.elements)

def setWaitBarriers (barriers : TaskSet) : BarrierInfo Queue :=
  info.modifyTable .wait (·.setColumn taskInd barriers)

def setUpdateBarriers (barriers : TaskSet) : BarrierInfo Queue :=
  info.modifyTable .update (·.setColumn taskInd barriers)

def resetBarrier : BarrierInfo Queue :=
  (info.modifyTable .update (·.clearRow barrierInd)).modifyTable .wait (·.clearRow barrierInd)

/-- The new barrier gets the first index that is not in use. -/
def addNewBarrier : BarrierInfo Queue :=
  (info.modifyTable .update (·.addRow)).modifyTable .wait (·.addRow)

/-! ### Building the maps from the operations -/

/-- A barrier operand is the index of its `DeclareVirtualBarrierOp`; another operand is refused. -/
def addOperands (add : BarrierInfo Queue → Nat → BarrierInfo Queue) (operands : List Nat) :
    Except Failure (BarrierInfo Queue) :=
  operands.foldlM (fun info bar =>
    if bar < info.getNumOfVirtualBarriers then .ok (add info bar)
    else .error (.invalidBarrierOp bar)) info

def addTaskOp (taskOp : TaskOp Queue) : Except Failure (BarrierInfo Queue) := do
  let info ← info.addOperands (fun info bar => info.addConsumer bar taskInd) taskOp.waitBarriers
  info.addOperands (fun info bar => info.addProducer bar taskInd) taskOp.updateBarriers

/-- Consecutive sync tasks must be one block size apart. -/
def checkSyncTasks (blockSize : Nat) : List Nat → Except Failure Unit
  | first :: second :: rest =>
    if second = first + blockSize then checkSyncTasks blockSize (second :: rest)
    else .error (.syncTaskDifference blockSize (second - first))
  | _ => .ok ()

def buildBarrierMaps (taskOps : List (TaskOp Queue)) (barrierCount : Nat) :
    Except Failure (BarrierInfo Queue) := do
  let syncTasksIds := taskOps.findIdxs TaskOp.syncTask
  let blockSize := match syncTasksIds with
    | [] => 0
    | first :: _ => first + 1
  checkSyncTasks blockSize syncTasksIds
  let initial : BarrierInfo Queue := ⟨taskOps, blockSize, syncTasksIds,
    .empty barrierCount taskOps.length, .empty barrierCount taskOps.length⟩
  taskOps.zipIdx.foldlM (fun info task => info.addTaskOp task.2 task.1) initial

/-! ### The blocks of the control graph -/

/-- Sync points are distributed uniformly; the last task is never one. -/
def isSyncPoint (taskIdx : Nat) : Bool :=
  info.controlGraphBlockSize ≠ 0 && taskIdx + 1 ≠ info.getNumOfTasks &&
    (taskIdx + 1) % info.controlGraphBlockSize = 0

def getControlGraphBlockCount : Nat := info.syncTasksIds.length + 1

/-- One less than an index; below zero it would wrap and leave all containers. -/
def previous : Nat → Except Failure Nat
  | 0 => .error .undefined
  | idx + 1 => .ok idx

def getControlGraphBlockTaskRange (blockInd : Nat) (blockStartSyncPoint blockEndSyncPoint : Bool) :
    Except Failure (Nat × Nat) := do
  if info.getControlGraphBlockCount ≤ blockInd then .error (.invalidTaskBlock blockInd)
  let blockStartInd :=
    if blockInd = 0 then 0
    else if blockStartSyncPoint then info.syncTasksIds.getD (blockInd - 1) 0
    else info.syncTasksIds.getD (blockInd - 1) 0 + 1
  let blockEndInd ←
    if blockInd + 1 = info.getControlGraphBlockCount then previous info.getNumOfTasks
    else if blockEndSyncPoint then .ok (info.syncTasksIds.getD blockInd 0)
    else previous (info.syncTasksIds.getD blockInd 0)
  return (blockStartInd, blockEndInd)

/-- The bits of the barriers, counted from an offset. -/
def setBarrierMask {width : Nat} (mask : BitVec width) (barriers : TaskSet) (offset : Nat) :
    BitVec width :=
  barriers.elements.foldl (fun mask bar => mask ||| BitVec.twoPow width (bar - offset)) mask

/-- The indices of the bits that are set, in increasing order. -/
def setBits {width : Nat} (mask : BitVec width) : List Nat := (List.range width).filter mask.getLsbD

/-- The task indices of a range with both ends. -/
def taskRange (blockStartInd blockEndInd : Nat) : List Nat :=
  List.range' blockStartInd (blockEndInd + 1 - blockStartInd)

def getBarriersForTaskBlock (blockInd : Nat) (blockStartSyncPoint blockEndSyncPoint : Bool)
    (side : Side) : Except Failure (List Nat) := do
  let (blockStartInd, blockEndInd) ←
    info.getControlGraphBlockTaskRange blockInd blockStartSyncPoint blockEndSyncPoint
  if info.getNumOfTasks ≤ blockEndInd then .error .undefined
  let barrierInd := (taskRange blockStartInd blockEndInd).foldl
    (fun barrierInd taskInd => setBarrierMask barrierInd ((info.table side).column taskInd) 0)
    (0 : BitVec info.getNumOfVirtualBarriers)
  return setBits barrierInd

/-- A sync task may only be followed by tasks of the next block, another one by tasks of its
own block. -/
def respectsSplit (blockSize taskInd childTaskInd : Nat) : Bool :=
  let taskBlockInd := taskInd / blockSize
  let syncTaskInd := (taskBlockInd + 1) * blockSize - 1
  if taskInd = syncTaskInd then taskBlockInd + 1 = childTaskInd / blockSize
  else taskBlockInd = childTaskInd / blockSize

def verifyControlGraphSplit : Except Failure Bool :=
  if info.syncTasksIds.isEmpty then .ok true
  else do
    checkSyncTasks info.controlGraphBlockSize info.syncTasksIds
    if info.controlGraphBlockSize = 0 then .error .undefined
    return (List.range info.getNumOfTasks).all fun taskInd =>
      (info.getUpdateBarriers taskInd).elements.all fun updateBarrierInd =>
        (info.getBarrierConsumers updateBarrierInd).elements.all fun childTaskInd =>
          respectsSplit info.controlGraphBlockSize taskInd childTaskInd

/-! ### The order of the tasks -/

/-- The first task updates a barrier for which the second one waits. -/
def Controls (task child : Nat) : Prop :=
  ∃ barrier, info.updates.Linked barrier task ∧ info.waits.Linked barrier child

/-- A chain of barriers leads from the first task to the second one. -/
def Precedes : Nat → Nat → Prop := Relation.TransGen info.Controls

/-- Every producer of a barrier has a smaller index than every consumer. -/
def IndexOrdered : Prop :=
  ∀ barrier producer consumer, info.updates.Linked barrier producer →
    info.waits.Linked barrier consumer → producer < consumer

instance : Decidable info.IndexOrdered :=
  decidable_of_iff (∀ barrier ∈ List.range info.updates.rows.length,
    ∀ producer ∈ (info.updates.row barrier).elements,
      ∀ consumer ∈ (info.waits.row barrier).elements, producer < consumer)
    ⟨fun checked barrier producer consumer updated waited =>
      checked barrier (List.mem_range.mpr updated.row_lt) producer updated consumer waited,
    fun ordered barrier _ producer updated consumer waited =>
      ordered barrier producer consumer updated waited⟩

/-- Both sides of the maps say the same, and they have an entry for each barrier and task.
Without a block size there are no sync tasks. -/
structure Valid : Prop where
  mirrored : ∀ side, (info.table side).Mirrored
  barriers : ∀ side, (info.table side).rows.length = info.getNumOfVirtualBarriers
  tasks : ∀ side, (info.table side).columns.length = info.getNumOfTasks
  unsplit : info.controlGraphBlockSize = 0 → info.syncTasksIds = []

/-- There are tasks, and the sync tasks are where a split puts them: the last task of each block
that is not the last one. -/
structure SyncTasksPlaced : Prop where
  occupied : 0 < info.getNumOfTasks
  placed : info.syncTasksIds = (List.range info.syncTasksIds.length).map fun blockInd =>
    (blockInd + 1) * info.controlGraphBlockSize - 1
  bound : ∀ id ∈ info.syncTasksIds, 1 ≤ id ∧ id + 1 < info.getNumOfTasks

/-! ### Valid maps -/

open IncidenceTable

variable {Queue : Type} {info : BarrierInfo Queue}

/-! ### One table at a time -/

variable {barrier task : Nat} (side : Side) (change : IncidenceTable 16 → IncidenceTable 16)

@[simp] theorem table_modifyTable_self :
    (info.modifyTable side change).table side = change (info.table side) := by
  cases side <;> rfl

@[simp] theorem table_modifyTable_opposite :
    (info.modifyTable side change).table side.opposite = info.table side.opposite := by
  cases side <;> rfl

theorem table_modifyTable_ne {side other : Side} (different : other ≠ side)
    (change : IncidenceTable 16 → IncidenceTable 16) :
    (info.modifyTable side change).table other = info.table other := by
  cases side <;> cases other <;> first | rfl | exact absurd rfl different

@[simp] theorem allTaskOps_modifyTable :
    (info.modifyTable side change).allTaskOps = info.allTaskOps := by
  cases side <;> rfl

@[simp] theorem controlGraphBlockSize_modifyTable :
    (info.modifyTable side change).controlGraphBlockSize = info.controlGraphBlockSize := by
  cases side <;> rfl

@[simp] theorem syncTasksIds_modifyTable :
    (info.modifyTable side change).syncTasksIds = info.syncTasksIds := by
  cases side <;> rfl

@[simp] theorem getNumOfTasks_modifyTable :
    (info.modifyTable side change).getNumOfTasks = info.getNumOfTasks := by
  cases side <;> rfl

theorem getNumOfVirtualBarriers_modifyTable {side : Side}
    {change : IncidenceTable 16 → IncidenceTable 16}
    (rows : (change (info.table side)).rows.length = (info.table side).rows.length) :
    (info.modifyTable side change).getNumOfVirtualBarriers = info.getNumOfVirtualBarriers := by
  cases side with
  | update => exact rows
  | wait => rfl

theorem Valid.modifyTable (valid : info.Valid) {side : Side}
    {change : IncidenceTable 16 → IncidenceTable 16}
    (mirrored : (change (info.table side)).Mirrored)
    (rows : (change (info.table side)).rows.length = (info.table side).rows.length)
    (columns : (change (info.table side)).columns.length = (info.table side).columns.length) :
    (info.modifyTable side change).Valid := by
  have count := getNumOfVirtualBarriers_modifyTable rows
  constructor
  · intro other
    by_cases same : other = side
    · rw [same, table_modifyTable_self]
      exact mirrored
    · rw [table_modifyTable_ne same]
      exact valid.mirrored other
  · intro other
    rw [count]
    by_cases same : other = side
    · rw [same, table_modifyTable_self, rows]
      exact valid.barriers side
    · rw [table_modifyTable_ne same]
      exact valid.barriers other
  · intro other
    rw [getNumOfTasks_modifyTable]
    by_cases same : other = side
    · rw [same, table_modifyTable_self, columns]
      exact valid.tasks side
    · rw [table_modifyTable_ne same]
      exact valid.tasks other
  · rw [controlGraphBlockSize_modifyTable, syncTasksIds_modifyTable]
    exact valid.unsplit

theorem Valid.barrier_lt (valid : info.Valid) (side : Side)
    (linked : (info.table side).Linked barrier task) : barrier < info.getNumOfVirtualBarriers := by
  rw [← valid.barriers side]
  exact linked.row_lt

theorem Valid.task_lt (valid : info.Valid) (side : Side)
    (linked : (info.table side).Linked barrier task) : task < info.getNumOfTasks := by
  rw [← valid.tasks side]
  exact (valid.mirrored side).column_lt linked

/-! ### The functions that change the maps -/

section Changes

variable {barrierInd taskInd : Nat}

section

variable (valid : info.Valid)
include valid

theorem Valid.link (side : Side) (barrier : barrierInd < info.getNumOfVirtualBarriers)
    (task : taskInd < info.getNumOfTasks) :
    (info.modifyTable side (·.link barrierInd taskInd)).Valid := by
  refine valid.modifyTable (IncidenceTable.Mirrored.link (valid.mirrored side) ?_ ?_)
    length_rows_link length_columns_link
  · rw [valid.barriers side]
    exact barrier
  · rw [valid.tasks side]
    exact task

theorem Valid.addConsumer (barrier : barrierInd < info.getNumOfVirtualBarriers)
    (task : taskInd < info.getNumOfTasks) : (info.addConsumer barrierInd taskInd).Valid :=
  valid.link .wait barrier task

theorem Valid.addProducer (barrier : barrierInd < info.getNumOfVirtualBarriers)
    (task : taskInd < info.getNumOfTasks) : (info.addProducer barrierInd taskInd).Valid :=
  valid.link .update barrier task

/-- Without tasks nothing is asked of the barrier. -/
theorem Valid.linkAll (side : Side) {taskInds : TaskSet}
    (barrier : ∀ task ∈ taskInds, barrierInd < info.getNumOfVirtualBarriers)
    (tasks : ∀ task ∈ taskInds, task < info.getNumOfTasks) :
    (info.modifyTable side (·.linkAll barrierInd taskInds.elements)).Valid := by
  refine valid.modifyTable ?_ (length_rows_linkAll _) (length_columns_linkAll _)
  cases elements : taskInds.elements with
  | nil => exact valid.mirrored side
  | cons first rest =>
    have mem : first ∈ taskInds.elements := elements ▸ List.mem_cons_self
    rw [← elements]
    refine IncidenceTable.Mirrored.linkAll (valid.mirrored side) ?_ ?_
    · rw [valid.barriers side]
      exact barrier first mem
    · rw [valid.tasks side]
      exact tasks

theorem Valid.addConsumers (barrier : barrierInd < info.getNumOfVirtualBarriers)
    {taskInds : TaskSet} (tasks : ∀ task ∈ taskInds, task < info.getNumOfTasks) :
    (info.addConsumers barrierInd taskInds).Valid :=
  valid.linkAll .wait (fun _ _ => barrier) tasks

theorem Valid.addProducers (barrier : barrierInd < info.getNumOfVirtualBarriers)
    {taskInds : TaskSet} (tasks : ∀ task ∈ taskInds, task < info.getNumOfTasks) :
    (info.addProducers barrierInd taskInds).Valid :=
  valid.linkAll .update (fun _ _ => barrier) tasks

theorem Valid.removeProducer : (info.removeProducer barrierInd taskInd).Valid :=
  valid.modifyTable (IncidenceTable.Mirrored.unlink (valid.mirrored .update))
    length_rows_unlink length_columns_unlink

theorem Valid.removeConsumer : (info.removeConsumer barrierInd taskInd).Valid :=
  valid.modifyTable (IncidenceTable.Mirrored.unlink (valid.mirrored .wait))
    length_rows_unlink length_columns_unlink

theorem Valid.removeProducers (taskInds : TaskSet) :
    (info.removeProducers barrierInd taskInds).Valid :=
  valid.modifyTable (IncidenceTable.Mirrored.unlinkAll (valid.mirrored .update) _)
    (length_rows_unlinkAll _) (length_columns_unlinkAll _)

theorem Valid.removeConsumers (taskInds : TaskSet) :
    (info.removeConsumers barrierInd taskInds).Valid :=
  valid.modifyTable (IncidenceTable.Mirrored.unlinkAll (valid.mirrored .wait) _)
    (length_rows_unlinkAll _) (length_columns_unlinkAll _)

theorem Valid.setColumn (side : Side) {barriers : TaskSet}
    (inside : ∀ barrier ∈ barriers, barrier < info.getNumOfVirtualBarriers)
    (task : taskInd < info.getNumOfTasks) :
    (info.modifyTable side (·.setColumn taskInd barriers)).Valid := by
  refine valid.modifyTable (IncidenceTable.Mirrored.setColumn (valid.mirrored side) ?_ ?_)
    (length_rows_setColumn _) (length_columns_setColumn _)
  · rw [valid.barriers side]
    exact inside
  · rw [valid.tasks side]
    exact task

theorem Valid.resetBarrier : (info.resetBarrier barrierInd).Valid := by
  have first : (info.modifyTable .update (·.clearRow barrierInd)).Valid :=
    valid.modifyTable (IncidenceTable.Mirrored.clearRow (valid.mirrored .update))
      length_rows_clearRow length_columns_clearRow
  exact first.modifyTable (IncidenceTable.Mirrored.clearRow (first.mirrored .wait))
    length_rows_clearRow length_columns_clearRow

theorem Valid.addNewBarrier : info.addNewBarrier.Valid := by
  have count : info.addNewBarrier.getNumOfVirtualBarriers = info.getNumOfVirtualBarriers + 1 :=
    length_rows_addRow
  refine ⟨fun side => ?_, fun side => ?_, fun side => ?_, valid.unsplit⟩
  · cases side with
    | update => exact IncidenceTable.Mirrored.addRow (valid.mirrored .update)
    | wait => exact IncidenceTable.Mirrored.addRow (valid.mirrored .wait)
  · rw [count, ← valid.barriers side]
    cases side <;> exact length_rows_addRow
  · cases side with
    | update => exact valid.tasks .update
    | wait => exact valid.tasks .wait

end

end Changes

/-! ### The construction -/

variable {taskOps : List (TaskOp Queue)}

theorem addOperands_valid {add : BarrierInfo Queue → Nat → BarrierInfo Queue}
    (valid : ∀ {info : BarrierInfo Queue} {bar : Nat}, info.Valid →
      bar < info.getNumOfVirtualBarriers → info.allTaskOps = taskOps →
      (add info bar).Valid ∧ (add info bar).allTaskOps = taskOps) (operands : List Nat) :
    Run.Preserves (fun info : BarrierInfo Queue => info.Valid ∧ info.allTaskOps = taskOps)
      (fun info => info.addOperands add operands) := by
  refine Run.Preserves.foldlM _ fun bar _ => ?_
  intro info after holds res
  dsimp only at res
  split at res
  · next inside =>
    cases res
    exact valid holds.1 inside holds.2
  · cases res

theorem addTaskOp_valid {taskInd : Nat} (inside : taskInd < taskOps.length)
    (taskOp : TaskOp Queue) :
    Run.Preserves (fun info : BarrierInfo Queue => info.Valid ∧ info.allTaskOps = taskOps)
      (fun info => info.addTaskOp taskInd taskOp) := by
  refine Run.Preserves.bind (addOperands_valid ?_ _) (addOperands_valid ?_ _)
  · intro info bar valid bound same
    refine ⟨valid.addConsumer bound ?_, same⟩
    unfold getNumOfTasks
    rw [same]
    exact inside
  · intro info bar valid bound same
    refine ⟨valid.addProducer bound ?_, same⟩
    unfold getNumOfTasks
    rw [same]
    exact inside

theorem buildBarrierMaps_valid {barrierCount : Nat}
    (res : buildBarrierMaps taskOps barrierCount = .ok info) :
    info.Valid ∧ info.allTaskOps = taskOps := by
  obtain ⟨_, _, res⟩ := Run.bind_ok res
  have kept : Run.Preserves (fun info : BarrierInfo Queue => info.Valid ∧ info.allTaskOps = taskOps)
      (fun info => taskOps.zipIdx.foldlM (fun info task => info.addTaskOp task.2 task.1) info) := by
    refine Run.Preserves.foldlM _ fun task mem => addTaskOp_valid ?_ task.1
    have position := List.mem_zipIdx mem
    omega
  refine kept _ _ ⟨⟨?_, ?_, ?_, ?_⟩, rfl⟩ res
  · exact fun side => by cases side <;> exact mirrored_empty _ _
  · intro side
    cases side <;> simp [table, getNumOfVirtualBarriers]
  · intro side
    cases side <;> simp [table, getNumOfTasks]
  · intro size
    cases ids : taskOps.findIdxs TaskOp.syncTask with
    | nil => rfl
    | cons first rest =>
      simp only [ids] at size
      exact absurd size (Nat.succ_ne_zero first)

/-! ### Any sequence of changes -/

/-- A call that changes the maps. A set that is given is none of the sets in the maps: the callers
copy those. -/
inductive Mutation
  | addProducer (barrierInd taskInd : Nat)
  | addProducers (barrierInd : Nat) (taskInds : TaskSet)
  | addConsumer (barrierInd taskInd : Nat)
  | addConsumers (barrierInd : Nat) (taskInds : TaskSet)
  | removeProducer (barrierInd taskInd : Nat)
  | removeProducers (barrierInd : Nat) (taskInds : TaskSet)
  | removeConsumer (barrierInd taskInd : Nat)
  | removeConsumers (barrierInd : Nat) (taskInds : TaskSet)
  | resetBarrier (barrierInd : Nat)
  | addNewBarrier
  | setWaitBarriers (taskInd : Nat) (barriers : TaskSet)
  | setUpdateBarriers (taskInd : Nat) (barriers : TaskSet)

namespace Mutation

/-- The barriers and the tasks whose entries are read. A bulk call without tasks reads none. -/
def touched : Mutation → List Nat × List Nat
  | addProducer barrier task | addConsumer barrier task => ([barrier], [task])
  | removeProducer barrier task | removeConsumer barrier task => ([barrier], [task])
  | addProducers barrier tasks | addConsumers barrier tasks =>
    (tasks.elements.map fun _ => barrier, tasks.elements)
  | removeProducers barrier tasks | removeConsumers barrier tasks =>
    (tasks.elements.map fun _ => barrier, tasks.elements)
  | resetBarrier barrier => ([barrier], [])
  | addNewBarrier => ([], [])
  | setWaitBarriers task barriers | setUpdateBarriers task barriers => (barriers.elements, [task])

def perform (info : BarrierInfo Queue) : Mutation → BarrierInfo Queue
  | addProducer barrierInd taskInd => info.addProducer barrierInd taskInd
  | addProducers barrierInd taskInds => info.addProducers barrierInd taskInds
  | addConsumer barrierInd taskInd => info.addConsumer barrierInd taskInd
  | addConsumers barrierInd taskInds => info.addConsumers barrierInd taskInds
  | removeProducer barrierInd taskInd => info.removeProducer barrierInd taskInd
  | removeProducers barrierInd taskInds => info.removeProducers barrierInd taskInds
  | removeConsumer barrierInd taskInd => info.removeConsumer barrierInd taskInd
  | removeConsumers barrierInd taskInds => info.removeConsumers barrierInd taskInds
  | resetBarrier barrierInd => info.resetBarrier barrierInd
  | addNewBarrier => info.addNewBarrier
  | setWaitBarriers taskInd barriers => info.setWaitBarriers taskInd barriers
  | setUpdateBarriers taskInd barriers => info.setUpdateBarriers taskInd barriers

def apply (info : BarrierInfo Queue) (mutation : Mutation) : Except Failure (BarrierInfo Queue) :=
  if (∀ barrier ∈ mutation.touched.1, barrier < info.getNumOfVirtualBarriers) ∧
      ∀ task ∈ mutation.touched.2, task < info.getNumOfTasks then
    .ok (mutation.perform info)
  else .error .undefined

theorem apply_valid (mutation : Mutation) :
    Run.Preserves (@Valid Queue) fun info => mutation.apply info := by
  intro info after valid res
  change mutation.apply info = _ at res
  unfold apply at res
  split at res
  · next inside =>
    cases res
    obtain ⟨barriers, tasks⟩ := inside
    cases mutation with
    | addProducer barrierInd taskInd =>
      exact valid.addProducer (barriers _ List.mem_cons_self) (tasks _ List.mem_cons_self)
    | addConsumer barrierInd taskInd =>
      exact valid.addConsumer (barriers _ List.mem_cons_self) (tasks _ List.mem_cons_self)
    | addProducers barrierInd taskInds =>
      exact valid.linkAll .update (fun _ mem => barriers _ (List.mem_map_of_mem mem)) tasks
    | addConsumers barrierInd taskInds =>
      exact valid.linkAll .wait (fun _ mem => barriers _ (List.mem_map_of_mem mem)) tasks
    | removeProducer barrierInd taskInd => exact valid.removeProducer
    | removeProducers barrierInd taskInds => exact valid.removeProducers taskInds
    | removeConsumer barrierInd taskInd => exact valid.removeConsumer
    | removeConsumers barrierInd taskInds => exact valid.removeConsumers taskInds
    | resetBarrier barrierInd => exact valid.resetBarrier
    | addNewBarrier => exact valid.addNewBarrier
    | setWaitBarriers taskInd barriers' =>
      exact valid.setColumn .wait barriers (tasks _ List.mem_cons_self)
    | setUpdateBarriers taskInd barriers' =>
      exact valid.setColumn .update barriers (tasks _ List.mem_cons_self)
  · cases res

end Mutation

/-- After any sequence of calls that change the maps, the barriers and the tasks say the same. -/
theorem mutated_dual {barrierCount : Nat} {mutations : List Mutation} {after : BarrierInfo Queue}
    (built : buildBarrierMaps taskOps barrierCount = .ok info)
    (res : mutations.foldlM Mutation.apply info = .ok after) (task barrier : Nat) :
    (task ∈ after.getBarrierProducers barrier ↔ barrier ∈ after.getUpdateBarriers task) ∧
      (task ∈ after.getBarrierConsumers barrier ↔ barrier ∈ after.getWaitBarriers task) := by
  have valid : after.Valid := Run.Preserves.foldlM mutations
    (fun mutation _ => mutation.apply_valid) info after (buildBarrierMaps_valid built).1 res
  exact ⟨(valid.mirrored .update barrier task).symm, (valid.mirrored .wait barrier task).symm⟩

/-- The first of two tasks updates the barrier for which the second one waits. -/
def linkedTasks : BarrierInfo Unit :=
  { allTaskOps := [⟨(), 1, [], [0], false⟩, ⟨(), 1, [0], [], false⟩]
    controlGraphBlockSize := 0
    syncTasksIds := []
    updates := ⟨[.ofList [0]], [.ofList [0], ∅]⟩
    waits := ⟨[.ofList [1]], [∅, .ofList [0]]⟩ }

theorem mutated_dual_linkedTasks :
    ∃ after, [Mutation.addNewBarrier, .addProducers 1 (.ofList [0, 1]),
        .setWaitBarriers 1 (.ofList [1]), .resetBarrier 0].foldlM Mutation.apply linkedTasks =
          .ok after ∧
      (0 ∈ after.getBarrierProducers 1 ↔ 1 ∈ after.getUpdateBarriers 0) ∧
        (0 ∈ after.getBarrierConsumers 1 ↔ 1 ∈ after.getWaitBarriers 0) := by
  have built : buildBarrierMaps linkedTasks.allTaskOps 1 = .ok linkedTasks := rfl
  exact ⟨_, rfl, mutated_dual built (Eq.refl ([Mutation.addNewBarrier,
    .addProducers 1 (.ofList [0, 1]), .setWaitBarriers 1 (.ofList [1]),
    .resetBarrier 0].foldlM Mutation.apply linkedTasks)) 0 1⟩

end BarrierInfo

end NpuPlugin
