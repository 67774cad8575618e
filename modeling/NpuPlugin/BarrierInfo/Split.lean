/-
This file models `splitControlGraphToBlocks`: the last task of each block but the last one becomes a
sync task with a wait and an update barrier of its own, and dependencies between blocks are
redirected through the sync tasks.
-/

import Std.Data.TreeMap.Lemmas
import NpuPlugin.BarrierInfo.Model

namespace NpuPlugin.BarrierInfo

open IncidenceTable List Nat

/-- The state of the split: the maps and the wait and update barrier of each sync task. -/
structure SplitState (Queue : Type) where
  info : BarrierInfo Queue
  syncTaskWaitAndUpdateBarrierIndMap : Std.TreeMap Nat (Nat × Nat)

namespace SplitState

variable {Queue : Type} (state : SplitState Queue)

/-- `operator[]` of the map: a task that is missing is entered with the barriers 0 and 0. -/
def enter (taskInd : Nat) : SplitState Queue :=
  if state.syncTaskWaitAndUpdateBarrierIndMap.contains taskInd then state
  else
    { state with syncTaskWaitAndUpdateBarrierIndMap :=
        state.syncTaskWaitAndUpdateBarrierIndMap.insert taskInd (0, 0) }

def waitBarInd (taskInd : Nat) : Nat :=
  (state.syncTaskWaitAndUpdateBarrierIndMap.getD taskInd (0, 0)).1

def updateBarInd (taskInd : Nat) : Nat :=
  (state.syncTaskWaitAndUpdateBarrierIndMap.getD taskInd (0, 0)).2

/-- Make tasks producers of the wait barrier of a sync task. -/
def addSyncProducers (syncTaskInd : Nat) (taskInds : TaskSet) : SplitState Queue :=
  let state := state.enter syncTaskInd
  { state with info := state.info.addProducers (state.waitBarInd syncTaskInd) taskInds }

/-- Make tasks consumers of the update barrier of a sync task. -/
def addSyncConsumers (syncTaskInd : Nat) (taskInds : TaskSet) : SplitState Queue :=
  let state := state.enter syncTaskInd
  { state with info := state.info.addConsumers (state.updateBarInd syncTaskInd) taskInds }

end SplitState

variable {Queue : Type} (blockSize numOfBlocks tasksSize : Nat)

/-! ### Step 1: the barriers of the sync tasks -/

def addSyncBarriers (state : SplitState Queue) (blockInd : Nat) : SplitState Queue :=
  let syncTaskInd := blockInd * blockSize - 1
  let waitBarInd := state.info.getNumOfVirtualBarriers
  let info := state.info.addNewBarrier.addConsumer waitBarInd syncTaskInd
  let updateBarInd := info.getNumOfVirtualBarriers
  let info := info.addNewBarrier.addProducer updateBarInd syncTaskInd
  ⟨info, state.syncTaskWaitAndUpdateBarrierIndMap.insert syncTaskInd (waitBarInd, updateBarInd)⟩

/-! ### Step 2: the first and last tasks of the queues -/

/-- For each queue the first task of the block that waits for nothing and the last one that
updates nothing. -/
structure QueueTasks (Queue : Type) [LinearOrder Queue] where
  firstTaskWithNoWaitBar : Std.TreeMap Queue Nat
  lastTaskWithNoUpdateBar : Std.TreeMap Queue Nat

section QueueTasks

variable [LinearOrder Queue]

def linkLastTasks (loop : SplitState Queue × QueueTasks Queue) (task : TaskOp Queue × Nat) :
    SplitState Queue × QueueTasks Queue :=
  let (state, queues) := loop
  let (taskOp, taskInd) := task
  let taskBlockInd := taskInd / blockSize
  let syncTaskInd := taskBlockInd * blockSize + blockSize - 1
  if taskBlockInd < numOfBlocks - 1 then
    if taskInd = syncTaskInd then
      let state := state.enter syncTaskInd
      (queues.lastTaskWithNoUpdateBar.toList.foldl (fun state entry =>
        { state with info := state.info.addProducer (state.waitBarInd syncTaskInd) entry.2 }) state,
        { queues with lastTaskWithNoUpdateBar := ∅ })
    else if (state.info.getUpdateBarriers taskInd).isEmpty then
      (state, { queues with
        lastTaskWithNoUpdateBar := queues.lastTaskWithNoUpdateBar.insert taskOp.queueType taskInd })
    else loop
  else loop

def linkFirstTasks (loop : SplitState Queue × QueueTasks Queue) (task : TaskOp Queue × Nat) :
    SplitState Queue × QueueTasks Queue :=
  let (state, queues) := loop
  let (taskOp, taskInd) := task
  let taskBlockInd := taskInd / blockSize
  let syncTaskInd := taskBlockInd * blockSize + blockSize - 1
  if 0 < taskBlockInd then
    if taskInd = syncTaskInd || taskInd = tasksSize - 1 then
      let prevSyncTaskInd := taskBlockInd * blockSize - 1
      let state := state.enter prevSyncTaskInd
      (queues.firstTaskWithNoWaitBar.toList.foldl (fun state entry =>
        { state with info :=
            state.info.addConsumer (state.updateBarInd prevSyncTaskInd) entry.2 }) state,
        { queues with firstTaskWithNoWaitBar := ∅ })
    else if (state.info.getWaitBarriers taskInd).isEmpty then
      if queues.firstTaskWithNoWaitBar.contains taskOp.queueType then loop
      else
        (state, { queues with
          firstTaskWithNoWaitBar := queues.firstTaskWithNoWaitBar.insert taskOp.queueType taskInd })
    else loop
  else loop

def linkQueueTasks (loop : SplitState Queue × QueueTasks Queue) (task : TaskOp Queue × Nat) :
    SplitState Queue × QueueTasks Queue :=
  linkFirstTasks blockSize tasksSize (linkLastTasks blockSize numOfBlocks loop task) task

end QueueTasks

/-! ### Step 3: the barriers between blocks -/

def groupByBlock (tasks : TaskSet) : Std.TreeMap Nat TaskSet :=
  tasks.elements.foldl (fun groups taskInd =>
    groups.insert (taskInd / blockSize) ((groups.getD (taskInd / blockSize) ∅).insert taskInd)) ∅

def getSetWithNoSyncTasks (info : BarrierInfo Queue) (taskSet : TaskSet) : TaskSet :=
  taskSet.filter fun task => !info.isSyncPoint task

/-- Take the producers of another block from the barrier and link them to the sync tasks around
their block. In the last block that produces the barrier they get a barrier of their own for the
consumers there. -/
def moveProducers (barInd lastBlock : Nat) (barConsBlockTasksMap : Std.TreeMap Nat TaskSet)
    (state : SplitState Queue) (group : Nat × TaskSet) : SplitState Queue :=
  let (blockId, producers) := group
  let state := { state with info := state.info.removeProducers barInd producers }
  let state :=
    if blockId ≠ lastBlock || !barConsBlockTasksMap.contains blockId then
      let nextSyncTaskInd := blockId * blockSize - 1 + blockSize
      if nextSyncTaskInd < tasksSize then
        state.addSyncProducers nextSyncTaskInd (getSetWithNoSyncTasks state.info producers)
      else state
    else
      let newBarInd := state.info.getNumOfVirtualBarriers
      let info := state.info.addNewBarrier.addProducers newBarInd producers
      { state with info := info.addConsumers newBarInd (barConsBlockTasksMap.getD blockId ∅) }
  state.addSyncConsumers (blockId * blockSize - 1) (getSetWithNoSyncTasks state.info producers)

def removeConsumersOfBlock (barInd : Nat) (state : SplitState Queue) (group : Nat × TaskSet) :
    SplitState Queue :=
  { state with info := state.info.removeConsumers barInd group.2 }

/-- Link the consumers of another block to the sync task before their block. -/
def linkConsumers (state : SplitState Queue) (group : Nat × TaskSet) : SplitState Queue :=
  state.addSyncConsumers (group.1 * blockSize - 1) (getSetWithNoSyncTasks state.info group.2)

def otherBlocks (blockId : Nat) (groups : Std.TreeMap Nat TaskSet) : List (Nat × TaskSet) :=
  groups.toList.filter fun group => group.1 ≠ blockId

def redirectBarrier (state : SplitState Queue) (barInd barBlockId : Nat)
    (barProdBlockTasksMap barConsBlockTasksMap : Std.TreeMap Nat TaskSet) :
    Except Failure (SplitState Queue) := do
  let lastBlock := (barProdBlockTasksMap.toList.getLastD (0, ∅)).1
  let state := (otherBlocks barBlockId barProdBlockTasksMap).foldl
    (moveProducers blockSize tasksSize barInd lastBlock barConsBlockTasksMap) state
  let state := (otherBlocks barBlockId barConsBlockTasksMap).foldl
    (removeConsumersOfBlock barInd) state
  let barSyncTaskInd := barBlockId * blockSize + blockSize - 1
  let earliest ← match (barProdBlockTasksMap.getD barBlockId ∅).elements with
    | [] => .error .undefined
    | first :: _ => .ok first
  let state :=
    if earliest ≠ barSyncTaskInd then
      { state with info :=
          (state.info.removeProducer barInd barSyncTaskInd).addConsumer barInd barSyncTaskInd }
    else state
  return (otherBlocks barBlockId barConsBlockTasksMap).foldl (linkConsumers blockSize) state

/-- One barrier. The flag tells that the loop is left. -/
def splitBarrier (state : SplitState Queue) (barInd : Nat) :
    Except Failure (SplitState Queue × Bool) := do
  let producers := state.info.getBarrierProducers barInd
  let consumers := state.info.getBarrierConsumers barInd
  if producers.isEmpty then .error (.noProducers barInd)
  else if consumers.isEmpty then .error (.noConsumers barInd)
  else
    let barProdBlockTasksMap := groupByBlock blockSize producers
    let barConsBlockTasksMap := groupByBlock blockSize consumers
    let blocksSet : TaskSet :=
      .ofList ((producers.elements ++ consumers.elements).map fun taskInd => taskInd / blockSize)
    if blocksSet.elements.length < 2 then return (state, false)
    else
      let barBlockId := min (barProdBlockTasksMap.toList.headD (0, ∅)).1
        (barConsBlockTasksMap.toList.headD (0, ∅)).1
      if barBlockId = numOfBlocks + 1 then return (state, true)
      else
        let state ← redirectBarrier blockSize tasksSize state barInd barBlockId
          barProdBlockTasksMap barConsBlockTasksMap
        return (state, false)

def splitBarriers : List Nat → SplitState Queue → Except Failure (SplitState Queue)
  | [], state => .ok state
  | barInd :: rest, state => do
    let (state, leave) ← splitBarrier blockSize numOfBlocks tasksSize state barInd
    if leave then return state else splitBarriers rest state

/-! ### Step 4: the sync tasks one after the other -/

def linkSyncTasks (state : SplitState Queue) (blockInd : Nat) : SplitState Queue :=
  let syncTaskInd := (blockInd - 1) * blockSize - 1
  let nextSyncTaskInd := blockInd * blockSize - 1
  let state := state.enter syncTaskInd
  { state with info := state.info.addConsumer (state.updateBarInd syncTaskInd) nextSyncTaskInd }

/-! ### Step 5: barriers without consumers -/

/-- Link a producer of a barrier without consumers to the sync task of its block. -/
def linkToSyncTask (state : SplitState Queue) (taskInd : Nat) : SplitState Queue :=
  let syncTaskInd := taskInd / blockSize * blockSize + blockSize - 1
  if tasksSize ≤ syncTaskInd then state
  else if taskInd ≠ syncTaskInd then
    let state := state.enter syncTaskInd
    { state with info := state.info.addProducer (state.waitBarInd syncTaskInd) taskInd }
  else state

def checkBarrier (state : SplitState Queue) (barInd : Nat) : Except Failure (SplitState Queue) :=
  let producers := state.info.getBarrierProducers barInd
  let state :=
    if (state.info.getBarrierConsumers barInd).isEmpty && !producers.isEmpty then
      let state := producers.elements.foldl (linkToSyncTask blockSize tasksSize) state
      { state with info := state.info.resetBarrier barInd }
    else state
  if (state.info.getBarrierProducers barInd).isEmpty &&
      !(state.info.getBarrierConsumers barInd).isEmpty then
    .error (.consumersWithoutProducers barInd)
  else .ok state

/-! ### Steps 6 and 7: unused sync barriers and the attributes of the sync tasks -/

/-- Both indices are read from the first component of the pair. -/
def removeUnusedBarriers (info : BarrierInfo Queue) (barriers : Nat × Nat) : BarrierInfo Queue :=
  let waitBarInd := barriers.1
  let updateBarInd := barriers.1
  let info :=
    if (info.getBarrierProducers waitBarInd).isEmpty then info.resetBarrier waitBarInd else info
  if (info.getBarrierConsumers updateBarInd).isEmpty then info.resetBarrier updateBarInd else info

def setSyncTask (info : BarrierInfo Queue) (blockInd : Nat) : BarrierInfo Queue :=
  let setAttr := fun taskOp : TaskOp Queue => { taskOp with syncTask := true }
  { info with allTaskOps := info.allTaskOps.modify (blockInd * blockSize - 1) setAttr }

/-! ### The split -/

/-- The number of blocks; the last one may be shorter. -/
def blockCount : Nat := tasksSize / blockSize + if 0 < tasksSize % blockSize then 1 else 0

def splitControlGraphToBlocks [LinearOrder Queue] (info : BarrierInfo Queue) (blockSize : Nat) :
    Except Failure (BarrierInfo Queue) := do
  let tasksSize := info.getNumOfTasks
  if blockSize < 2 then .error (.minimalBlockSize blockSize)
  else if 0 < info.controlGraphBlockSize then
    .error (.alreadySplit info.controlGraphBlockSize blockSize)
  else if tasksSize ≤ blockSize then return info
  else
    let numOfBlocks := blockCount blockSize tasksSize
    let barriersCount := info.getNumOfVirtualBarriers
    let inner := List.range' 1 (numOfBlocks - 1)
    let state : SplitState Queue := ⟨{ info with controlGraphBlockSize := blockSize }, ∅⟩
    let state := inner.foldl (addSyncBarriers blockSize) state
    let (state, _) := info.allTaskOps.zipIdx.foldl (linkQueueTasks blockSize numOfBlocks tasksSize)
      (state, ⟨∅, ∅⟩)
    let state ← splitBarriers blockSize numOfBlocks tasksSize (List.range barriersCount) state
    let state := (List.range' 2 (numOfBlocks - 2)).foldl (linkSyncTasks blockSize) state
    let state ← (List.range barriersCount).foldlM (checkBarrier blockSize tasksSize) state
    let info := (state.syncTaskWaitAndUpdateBarrierIndMap.toList.map Prod.snd).foldl
      removeUnusedBarriers state.info
    return inner.foldl (setSyncTask blockSize) info

variable {Queue : Type} (info : BarrierInfo Queue) (blockSize : Nat)

/-! ### Blocks and barriers -/

def syncTask (block : Nat) : Nat := (block + 1) * blockSize - 1

def lastBlock : Nat := (info.getNumOfTasks - 1) / blockSize

variable (barrier task : Nat)

def Touches : Prop := info.updates.Linked barrier task ∨ info.waits.Linked barrier task

/-- Every barrier has a producer and a consumer. -/
def Populated : Prop :=
  ∀ barrier < info.getNumOfVirtualBarriers, (∃ producer, info.updates.Linked barrier producer) ∧
    ∃ consumer, info.waits.Linked barrier consumer

def Crossing (barrier : Nat) : Prop :=
  ∃ task other, info.Touches barrier task ∧ info.Touches barrier other ∧
    task / blockSize ≠ other / blockSize

/-- No task of the barrier is in an earlier block. -/
def InHome : Prop := ∀ other, info.Touches barrier other → task / blockSize ≤ other / blockSize

/-- No producer of the barrier is in a later block. -/
def InLastProducing : Prop :=
  ∀ other, info.updates.Linked barrier other → other / blockSize ≤ task / blockSize

def ConsumedIn (barrier block : Nat) : Prop :=
  ∃ consumer, info.waits.Linked barrier consumer ∧ consumer / blockSize = block

/-! ### What happens to the tasks of a barrier between blocks -/

/-- A task of the last block, or another one that is not a sync task. -/
def Regular (task : Nat) : Prop :=
  task / blockSize < info.lastBlock blockSize → task ≠ syncTask blockSize (task / blockSize)

/-- A producer outside of the first block of the barrier. -/
def Moved : Prop := info.updates.Linked barrier task ∧ ¬ info.InHome blockSize barrier task

def ToWait : Prop :=
  info.Moved blockSize barrier task ∧
    (¬ info.InLastProducing blockSize barrier task ∨
      ¬ info.ConsumedIn blockSize barrier (task / blockSize)) ∧
    syncTask blockSize (task / blockSize) < info.getNumOfTasks ∧ info.Regular blockSize task

def ToNew : Prop :=
  info.Moved blockSize barrier task ∧ info.InLastProducing blockSize barrier task ∧
    info.ConsumedIn blockSize barrier (task / blockSize)

/-- A consumer that also waits for the new barrier. -/
def NewConsumer : Prop :=
  info.waits.Linked barrier task ∧
    ∃ producer, info.ToNew blockSize barrier producer ∧ producer / blockSize = task / blockSize

/-- A task that is linked to the sync task before its block. -/
def ToUpdate : Prop :=
  info.Touches barrier task ∧ ¬ info.InHome blockSize barrier task ∧ info.Regular blockSize task

/-! ### The first and last tasks of the queues -/

def queueTypeOf (task : Nat) : Option Queue := (info.allTaskOps[task]?).map TaskOp.queueType

variable {info} in
theorem queueTypeOf_eq {task : Nat} {taskOp : TaskOp Queue}
    (found : info.allTaskOps[task]? = some taskOp) :
    info.queueTypeOf task = some taskOp.queueType := by
  rw [queueTypeOf, found, Option.map_some]

/-- The last task of its queue, in a block with a sync task, that updates nothing. -/
structure LastWithoutUpdate (task : Nat) : Prop where
  block : task / blockSize < info.lastBlock blockSize
  regular : task ≠ syncTask blockSize (task / blockSize)
  without : ∀ barrier, ¬ info.updates.Linked barrier task
  last : ∀ later, task < later → later < syncTask blockSize (task / blockSize) →
    info.queueTypeOf later = info.queueTypeOf task → ∃ barrier, info.updates.Linked barrier later

/-- The first task of its queue, in a block after a sync task, that waits for nothing. The last
task of the program is never found. -/
structure FirstWithoutWait (task : Nat) : Prop where
  block : 0 < task / blockSize
  inside : task + 1 < info.getNumOfTasks
  regular : task ≠ syncTask blockSize (task / blockSize)
  without : ∀ barrier, ¬ info.waits.Linked barrier task
  first : ∀ earlier, earlier < task → earlier / blockSize = task / blockSize →
    info.queueTypeOf earlier = info.queueTypeOf task → ∃ barrier, info.waits.Linked barrier earlier

/-! ### The direct order after the split -/

/-- A task that the split links to the sync task of its block. -/
def LinksToSync (task : Nat) : Prop :=
  info.LastWithoutUpdate blockSize task ∨
  task / blockSize < info.lastBlock blockSize ∧ task ≠ syncTask blockSize (task / blockSize) ∧
    ∃ barrier, info.Crossing blockSize barrier ∧ info.updates.Linked barrier task ∧
      (info.InHome blockSize barrier task ∨ ¬ info.InLastProducing blockSize barrier task ∨
        ¬ info.ConsumedIn blockSize barrier (task / blockSize))

/-- A task that the split links to the sync task before its block. -/
def EnteredFromSync (task : Nat) : Prop :=
  info.FirstWithoutWait blockSize task ∨
    ∃ barrier, info.Crossing blockSize barrier ∧ info.ToUpdate blockSize barrier task

/-- The direct order of the tasks after the split. -/
inductive SplitEdge : Nat → Nat → Prop
  | inner {task child : Nat} : info.Controls task child →
      task / blockSize = child / blockSize → SplitEdge task child
  | toSync {task : Nat} : info.LinksToSync blockSize task →
      SplitEdge task (syncTask blockSize (task / blockSize))
  | fromSync {task : Nat} : info.EnteredFromSync blockSize task →
      SplitEdge (syncTask blockSize (task / blockSize - 1)) task
  | chain {block : Nat} : block + 1 < info.lastBlock blockSize →
      SplitEdge (syncTask blockSize block) (syncTask blockSize (block + 1))

/-! ### Arithmetic of the blocks -/

section Arithmetic

variable {info} {blockSize} {task block : Nat}

theorem syncTask_eq (block : Nat) :
    block * blockSize + blockSize - 1 = syncTask blockSize block := by
  rw [syncTask, Nat.add_mul, Nat.one_mul]

theorem syncTask_previous {block : Nat} (late : 0 < block) :
    block * blockSize - 1 = syncTask blockSize (block - 1) := by
  rw [syncTask, Nat.sub_add_cancel late]

section

variable (pos : 0 < blockSize)
include pos

theorem succ_syncTask (block : Nat) : syncTask blockSize block + 1 = (block + 1) * blockSize := by
  exact Nat.sub_add_cancel (Nat.mul_pos (Nat.succ_pos block) pos)

theorem syncTask_div (block : Nat) : syncTask blockSize block / blockSize = block := by
  have equal := succ_syncTask pos block
  rw [Nat.add_mul, Nat.one_mul] at equal
  refine Nat.div_eq_of_lt_le ?_ ?_
  · omega
  · rw [Nat.add_mul, Nat.one_mul]
    omega

theorem le_syncTask (task : Nat) : task ≤ syncTask blockSize (task / blockSize) := by
  have equal := succ_syncTask pos (task / blockSize)
  have bound := Nat.lt_mul_div_succ task pos
  rw [Nat.mul_comm] at bound
  omega

theorem syncTask_lt_of_div (later : block < task / blockSize) :
    syncTask blockSize block < task := by
  have equal := succ_syncTask pos block
  have bound : (block + 1) * blockSize ≤ task := (Nat.le_div_iff_mul_le pos).mp later
  omega

theorem syncTask_lt_syncTask {earlier later : Nat} (less : earlier < later) :
    syncTask blockSize earlier < syncTask blockSize later := by
  refine syncTask_lt_of_div pos ?_
  rw [syncTask_div pos]
  exact less

theorem syncTask_inj {first second : Nat}
    (equal : syncTask blockSize first = syncTask blockSize second) : first = second := by
  rw [← syncTask_div pos first, equal, syncTask_div pos]

end

theorem div_le_lastBlock (blockSize : Nat) (inside : task < info.getNumOfTasks) :
    task / blockSize ≤ info.lastBlock blockSize :=
  Nat.div_le_div_right (by omega)

theorem syncTask_succ_lt (pos : 0 < blockSize) (before : block < info.lastBlock blockSize) :
    syncTask blockSize block + 1 < info.getNumOfTasks := by
  have less := syncTask_lt_of_div pos before
  omega

theorem eq_lastBlock_of_succ (blockSize : Nat) (occupied : task + 1 = info.getNumOfTasks) :
    task / blockSize = info.lastBlock blockSize := by
  unfold lastBlock
  rw [← occupied, Nat.add_sub_cancel]

theorem lt_lastBlock_of_syncTask (pos : 0 < blockSize)
    (inside : syncTask blockSize block + 1 < info.getNumOfTasks) :
    block < info.lastBlock blockSize := by
  have bound : (block + 1) * blockSize ≤ info.getNumOfTasks - 1 := by
    rw [← succ_syncTask pos block]
    omega
  exact (Nat.le_div_iff_mul_le pos).mpr bound

theorem blockCount_eq (occupied : 0 < info.getNumOfTasks) :
    blockCount blockSize info.getNumOfTasks = info.lastBlock blockSize + 1 := by
  unfold blockCount lastBlock
  obtain ⟨count, equal⟩ : ∃ count, info.getNumOfTasks = count + 1 :=
    ⟨info.getNumOfTasks - 1, by omega⟩
  rw [equal, Nat.add_sub_cancel]
  split
  · next partly =>
    rw [Nat.succ_div_of_not_dvd]
    exact fun divides => absurd (Nat.mod_eq_zero_of_dvd divides) (by omega)
  · next full => rw [Nat.succ_div_of_dvd (Nat.dvd_of_mod_eq_zero (by omega))]

theorem regular_iff (pos : 0 < blockSize) (inside : task < info.getNumOfTasks)
    (size : info.controlGraphBlockSize = blockSize) :
    info.isSyncPoint task = false ↔ info.Regular blockSize task := by
  rw [← Bool.not_eq_true]
  unfold isSyncPoint Regular
  simp only [size, Bool.and_eq_true, decide_eq_true_eq]
  rw [not_iff_comm]
  push Not
  constructor
  · rintro ⟨before, sync⟩
    refine ⟨⟨by omega, ?_⟩, ?_⟩
    · intro last
      exact absurd (eq_lastBlock_of_succ blockSize last) (by omega)
    · have multiple := succ_syncTask pos (task / blockSize)
      rw [← sync] at multiple
      rw [multiple]
      exact Nat.mul_mod_left _ _
  · rintro ⟨⟨_, notLast⟩, multiple⟩
    obtain ⟨factor, equal⟩ := Nat.dvd_of_mod_eq_zero multiple
    have nonzero : factor ≠ 0 := fun zero => by
      rw [zero, Nat.mul_zero] at equal
      exact Nat.succ_ne_zero task equal
    obtain ⟨block, rfl⟩ := Nat.exists_eq_succ_of_ne_zero nonzero
    have sync : task = syncTask blockSize block := by
      have succ := succ_syncTask pos block
      rw [Nat.mul_comm] at equal
      have same : task + 1 = syncTask blockSize block + 1 := equal.trans succ.symm
      omega
    have own : task / blockSize = block := by rw [sync, syncTask_div pos]
    rw [own]
    exact ⟨lt_lastBlock_of_syncTask pos (by rw [← sync]; omega), sync⟩

end Arithmetic

/-! ### The steps -/

variable {Queue : Type} {info : BarrierInfo Queue} {blockSize : Nat}

/-! ### The map of the sync tasks -/

namespace SplitState

variable {state : SplitState Queue} {taskInd other : Nat}

@[simp] theorem info_enter : (state.enter taskInd).info = state.info := by
  unfold enter
  split <;> rfl

theorem getD_enter : (state.enter taskInd).syncTaskWaitAndUpdateBarrierIndMap.getD other (0, 0) =
    state.syncTaskWaitAndUpdateBarrierIndMap.getD other (0, 0) := by
  unfold enter
  split
  · rfl
  · next missing =>
    rw [Std.TreeMap.getD_insert]
    split
    · next same =>
      rw [← Std.LawfulEqCmp.eq_of_compare same, Std.TreeMap.getD_eq_fallback_of_contains_eq_false
        (Bool.not_eq_true _ ▸ missing)]
    · rfl

@[simp] theorem waitBarInd_enter : (state.enter taskInd).waitBarInd other = state.waitBarInd
  other :=
  congrArg Prod.fst getD_enter

@[simp] theorem updateBarInd_enter :
    (state.enter taskInd).updateBarInd other = state.updateBarInd other :=
  congrArg Prod.snd getD_enter

theorem mem_enter (mem : other ∈ state.syncTaskWaitAndUpdateBarrierIndMap) :
    other ∈ (state.enter taskInd).syncTaskWaitAndUpdateBarrierIndMap := by
  unfold enter
  split
  · exact mem
  · exact Std.TreeMap.mem_insert.mpr (.inr mem)

end SplitState

/-- What stays the same during the split: the tasks, the block size and where the barriers of the
sync tasks are found. A task that is not a sync task is found with barrier 0. -/
structure Splitting (info : BarrierInfo Queue) (blockSize : Nat) (state : SplitState Queue) :
    Prop where
  valid : state.info.Valid
  allTaskOps : state.info.allTaskOps = info.allTaskOps
  size : state.info.controlGraphBlockSize = blockSize
  ids : state.info.syncTasksIds = info.syncTasksIds
  room : info.getNumOfVirtualBarriers + 2 * info.lastBlock blockSize ≤
    state.info.getNumOfVirtualBarriers
  mem : ∀ block < info.lastBlock blockSize,
    syncTask blockSize block ∈ state.syncTaskWaitAndUpdateBarrierIndMap
  wait : ∀ block < info.lastBlock blockSize, state.waitBarInd (syncTask blockSize block) =
    info.getNumOfVirtualBarriers + 2 * block
  update : ∀ block < info.lastBlock blockSize, state.updateBarInd (syncTask blockSize block) =
    info.getNumOfVirtualBarriers + 2 * block + 1
  missing : ∀ task, (∀ block < info.lastBlock blockSize, task ≠ syncTask blockSize block) →
    state.waitBarInd task = 0

section Splitting

variable {state : SplitState Queue}

section

variable (splitting : Splitting info blockSize state)
include splitting

theorem Splitting.tasks : state.info.getNumOfTasks = info.getNumOfTasks :=
  congrArg List.length splitting.allTaskOps

theorem Splitting.enter (taskInd : Nat) : Splitting info blockSize (state.enter taskInd) := by
  refine ⟨?_, ?_, ?_, ?_, ?_, fun block before => SplitState.mem_enter (splitting.mem block before),
    fun block before => ?_, fun block before => ?_, fun task absent => ?_⟩
  · rw [SplitState.info_enter]
    exact splitting.valid
  · rw [SplitState.info_enter]
    exact splitting.allTaskOps
  · rw [SplitState.info_enter]
    exact splitting.size
  · rw [SplitState.info_enter]
    exact splitting.ids
  · rw [SplitState.info_enter]
    exact splitting.room
  · rw [SplitState.waitBarInd_enter]
    exact splitting.wait block before
  · rw [SplitState.updateBarInd_enter]
    exact splitting.update block before
  · rw [SplitState.waitBarInd_enter]
    exact splitting.missing task absent

theorem Splitting.change {after : BarrierInfo Queue} (valid : after.Valid)
    (allTaskOps : after.allTaskOps = state.info.allTaskOps)
    (size : after.controlGraphBlockSize = state.info.controlGraphBlockSize)
    (ids : after.syncTasksIds = state.info.syncTasksIds)
    (room : state.info.getNumOfVirtualBarriers ≤ after.getNumOfVirtualBarriers) :
    Splitting info blockSize { state with info := after } :=
  ⟨valid, allTaskOps.trans splitting.allTaskOps, size.trans splitting.size,
    ids.trans splitting.ids, splitting.room.trans room, splitting.mem, splitting.wait,
    splitting.update, splitting.missing⟩

theorem Splitting.waitBarInd_lt (blocks : 0 < info.lastBlock blockSize) (task : Nat) :
    state.waitBarInd task < state.info.getNumOfVirtualBarriers := by
  have room := splitting.room
  by_cases sync : ∃ block < info.lastBlock blockSize, task = syncTask blockSize block
  · obtain ⟨block, before, rfl⟩ := sync
    rw [splitting.wait block before]
    omega
  · rw [splitting.missing task fun block before same => sync ⟨block, before, same⟩]
    omega

theorem Splitting.updateBarInd_lt {block : Nat} (before : block < info.lastBlock blockSize) :
    state.updateBarInd (syncTask blockSize block) < state.info.getNumOfVirtualBarriers := by
  have room := splitting.room
  rw [splitting.update block before]
  omega

end

end Splitting

/-! ### Changes that only add links -/

/-- A change of the maps by additional producers and consumers. -/
structure Adds (info : BarrierInfo Queue) (blockSize : Nat) (state after : SplitState Queue)
    (produces consumes : Nat → Nat → Prop) : Prop where
  splitting : Splitting info blockSize after
  barriers : after.info.getNumOfVirtualBarriers = state.info.getNumOfVirtualBarriers
  updates : ∀ barrier task, after.info.updates.Linked barrier task ↔
    state.info.updates.Linked barrier task ∨ produces barrier task
  waits : ∀ barrier task, after.info.waits.Linked barrier task ↔
    state.info.waits.Linked barrier task ∨ consumes barrier task

theorem Adds.refl {state : SplitState Queue} (splitting : Splitting info blockSize state)
    {produces consumes : Nat → Nat → Prop} (noProducer : ∀ barrier task, ¬ produces barrier task)
    (noConsumer : ∀ barrier task, ¬ consumes barrier task) :
    Adds info blockSize state state produces consumes :=
  ⟨splitting, rfl, fun barrier task => (or_iff_left (noProducer barrier task)).symm,
    fun barrier task => (or_iff_left (noConsumer barrier task)).symm⟩

/-- A loop adds what its items add. -/
theorem Adds.foldl {Item : Type} (step : SplitState Queue → Item → SplitState Queue)
    {produces consumes : Item → Nat → Nat → Prop} (items : List Item)
    (each : ∀ item ∈ items, ∀ state, Splitting info blockSize state →
      Adds info blockSize state (step state item) (produces item) (consumes item))
    (state : SplitState Queue) (splitting : Splitting info blockSize state) :
    Adds info blockSize state (items.foldl step state)
      (fun barrier task => ∃ item ∈ items, produces item barrier task)
      (fun barrier task => ∃ item ∈ items, consumes item barrier task) := by
  induction items generalizing state with
  | nil => exact Adds.refl splitting (by simp) (by simp)
  | cons head tail ih =>
    have first := each head mem_cons_self state splitting
    have rest := ih (forall_mem_cons.mp each).2
      (step state head) first.splitting
    refine ⟨rest.splitting, rest.barriers.trans first.barriers, fun barrier task => ?_,
      fun barrier task => ?_⟩
    · rw [foldl_cons, rest.updates, first.updates, or_assoc]
      simp only [mem_cons, exists_eq_or_imp]
    · rw [foldl_cons, rest.waits, first.waits, or_assoc]
      simp only [mem_cons, exists_eq_or_imp]

section Links

variable {state : SplitState Queue} (splitting : Splitting info blockSize state)
  {barrier task : Nat} {tasks : TaskSet}

include splitting

section

variable (inside : barrier < state.info.getNumOfVirtualBarriers)
include inside

theorem addProducer_adds (taskInside : task < info.getNumOfTasks) :
    Adds info blockSize state { state with info := state.info.addProducer barrier task }
      (fun other node => other = barrier ∧ node = task) fun _ _ => False := by
  refine ⟨splitting.change (splitting.valid.addProducer inside (splitting.tasks ▸ taskInside)) rfl
    rfl rfl (le_of_eq ?_), ?_, fun other node => linked_link inside,
    fun other node => (or_false _).symm ▸ Iff.rfl⟩
  · exact length_rows_link.symm
  · exact length_rows_link

theorem addConsumer_adds (taskInside : task < info.getNumOfTasks) :
    Adds info blockSize state { state with info := state.info.addConsumer barrier task }
      (fun _ _ => False) fun other node => other = barrier ∧ node = task := by
  refine ⟨splitting.change (splitting.valid.addConsumer inside (splitting.tasks ▸ taskInside)) rfl
    rfl rfl le_rfl, rfl, fun other node => (or_false _).symm ▸ Iff.rfl,
    fun other node => linked_link ?_⟩
  exact inside.trans_eq (splitting.valid.barriers .wait).symm

theorem addProducers_adds (tasksInside : ∀ task ∈ tasks, task < info.getNumOfTasks) :
    Adds info blockSize state { state with info := state.info.addProducers barrier tasks }
      (fun other node => other = barrier ∧ node ∈ tasks) fun _ _ => False := by
  refine ⟨splitting.change (splitting.valid.addProducers inside ?_) rfl rfl rfl (le_of_eq ?_), ?_,
    fun other node => linked_linkAll _ inside,
    fun other node => (or_false _).symm ▸ Iff.rfl⟩
  · rw [splitting.tasks]
    exact tasksInside
  · exact (length_rows_linkAll _).symm
  · exact length_rows_linkAll _

theorem addConsumers_adds (tasksInside : ∀ task ∈ tasks, task < info.getNumOfTasks) :
    Adds info blockSize state { state with info := state.info.addConsumers barrier tasks }
      (fun _ _ => False) fun other node => other = barrier ∧ node ∈ tasks := by
  refine ⟨splitting.change (splitting.valid.addConsumers inside ?_) rfl rfl rfl le_rfl, rfl,
    fun other node => (or_false _).symm ▸ Iff.rfl,
    fun other node => linked_linkAll _ ?_⟩
  · rw [splitting.tasks]
    exact tasksInside
  · exact inside.trans_eq (splitting.valid.barriers .wait).symm

end

end Links

variable {state after : SplitState Queue} {produces consumes : Nat → Nat → Prop} {tasks : TaskSet}

theorem Adds.congr (adds : Adds info blockSize state after produces consumes)
    {produces' consumes' : Nat → Nat → Prop}
    (producers : ∀ barrier task, produces barrier task ↔ produces' barrier task)
    (consumers : ∀ barrier task, consumes barrier task ↔ consumes' barrier task) :
    Adds info blockSize state after produces' consumes' :=
  ⟨adds.splitting, adds.barriers,
    fun barrier task => (adds.updates barrier task).trans (or_congr_right (producers barrier task)),
    fun barrier task => (adds.waits barrier task).trans (or_congr_right (consumers barrier task))⟩

theorem Adds.of_enter {taskInd : Nat}
    (adds : Adds info blockSize (state.enter taskInd) after produces consumes) :
    Adds info blockSize state after produces consumes := by
  refine ⟨adds.splitting, ?_, fun barrier task => ?_, fun barrier task => ?_⟩
  · rw [adds.barriers, SplitState.info_enter]
  · rw [adds.updates, SplitState.info_enter]
  · rw [adds.waits, SplitState.info_enter]

theorem addSyncProducers_adds (splitting : Splitting info blockSize state)
    (blocks : 0 < info.lastBlock blockSize) (syncTaskInd : Nat)
    (tasksInside : ∀ task ∈ tasks, task < info.getNumOfTasks) :
    Adds info blockSize state (state.addSyncProducers syncTaskInd tasks)
      (fun other node => other = state.waitBarInd syncTaskInd ∧ node ∈ tasks) fun _ _ => False := by
  have entered := splitting.enter syncTaskInd
  have adds := addProducers_adds entered (entered.waitBarInd_lt blocks syncTaskInd) tasksInside
  refine (Adds.of_enter adds).congr (fun other node => ?_) fun _ _ => Iff.rfl
  rw [SplitState.waitBarInd_enter]

theorem addSyncConsumers_adds (splitting : Splitting info blockSize state) {block : Nat}
    (before : block < info.lastBlock blockSize)
    (tasksInside : ∀ task ∈ tasks, task < info.getNumOfTasks) :
    Adds info blockSize state (state.addSyncConsumers (syncTask blockSize block) tasks)
      (fun _ _ => False) fun other node =>
        other = info.getNumOfVirtualBarriers + 2 * block + 1 ∧ node ∈ tasks := by
  have entered := splitting.enter (syncTask blockSize block)
  have adds := addConsumers_adds entered (entered.updateBarInd_lt before) tasksInside
  refine (Adds.of_enter adds).congr (fun _ _ => Iff.rfl) fun other node => ?_
  rw [entered.update block before]

/-! ### Step 1 -/

/-- The state after the barriers of some sync tasks are added. -/
structure SyncBarriersAdded (info : BarrierInfo Queue) (blockSize count : Nat)
    (state : SplitState Queue) : Prop where
  valid : state.info.Valid
  allTaskOps : state.info.allTaskOps = info.allTaskOps
  size : state.info.controlGraphBlockSize = blockSize
  ids : state.info.syncTasksIds = info.syncTasksIds
  barriers : state.info.getNumOfVirtualBarriers = info.getNumOfVirtualBarriers + 2 * count
  updates : ∀ barrier task, state.info.updates.Linked barrier task ↔
    info.updates.Linked barrier task ∨ ∃ block < count,
      barrier = info.getNumOfVirtualBarriers + 2 * block + 1 ∧ task = syncTask blockSize block
  waits : ∀ barrier task, state.info.waits.Linked barrier task ↔
    info.waits.Linked barrier task ∨ ∃ block < count,
      barrier = info.getNumOfVirtualBarriers + 2 * block ∧ task = syncTask blockSize block
  found : ∀ task, state.syncTaskWaitAndUpdateBarrierIndMap[task]? =
    if task ∈ (List.range count).map (syncTask blockSize) then
      some (info.getNumOfVirtualBarriers + 2 * (task / blockSize),
        info.getNumOfVirtualBarriers + 2 * (task / blockSize) + 1)
    else none

theorem addSyncBarriers_spec (pos : 0 < blockSize) {count : Nat}
    (inside : syncTask blockSize count < info.getNumOfTasks)
    (added : SyncBarriersAdded info blockSize count state) :
    SyncBarriersAdded info blockSize (count + 1) (addSyncBarriers blockSize state (1 + count)) := by
  have sync : (1 + count) * blockSize - 1 = syncTask blockSize count := by
    rw [Nat.add_comm]
    rfl
  have taskInside : syncTask blockSize count < state.info.getNumOfTasks := by
    unfold getNumOfTasks
    rw [added.allTaskOps]
    exact inside
  -- The two barriers that are added and the links they get.
  let waitBar := state.info.getNumOfVirtualBarriers
  let first := state.info.addNewBarrier.addConsumer waitBar (syncTask blockSize count)
  let second := first.addNewBarrier.addProducer (waitBar + 1) (syncTask blockSize count)
  have firstCount : first.getNumOfVirtualBarriers = waitBar + 1 := length_rows_addRow
  have equal : addSyncBarriers blockSize state (1 + count) =
      ⟨second, state.syncTaskWaitAndUpdateBarrierIndMap.insert (syncTask blockSize count)
        (waitBar, waitBar + 1)⟩ := by
    unfold addSyncBarriers
    rw [sync]
    show SplitState.mk (first.addNewBarrier.addProducer first.getNumOfVirtualBarriers _)
      (state.syncTaskWaitAndUpdateBarrierIndMap.insert _
        (waitBar, first.getNumOfVirtualBarriers)) = _
    rw [firstCount]
  have newRows : state.info.addNewBarrier.getNumOfVirtualBarriers = waitBar + 1 :=
    length_rows_addRow
  have firstValid : first.Valid := added.valid.addNewBarrier.addConsumer (by omega) taskInside
  have secondRows : first.addNewBarrier.getNumOfVirtualBarriers = waitBar + 1 + 1 := by
    rw [← firstCount]
    exact length_rows_addRow
  have waitRows : state.info.addNewBarrier.waits.rows.length = waitBar + 1 :=
    (added.valid.addNewBarrier.barriers .wait).trans length_rows_addRow
  rw [equal]
  refine ⟨firstValid.addNewBarrier.addProducer (by omega) taskInside, added.allTaskOps, added.size,
    added.ids, ?_, fun barrier task => ?_, fun barrier task => ?_, fun task => ?_⟩
  · show second.getNumOfVirtualBarriers = _
    have rows : second.getNumOfVirtualBarriers = first.addNewBarrier.getNumOfVirtualBarriers :=
      length_rows_link
    rw [rows, secondRows, show waitBar = _ from added.barriers]
    omega
  · rw [exists_lt_succ_right, ← or_assoc, ← added.updates, ← added.barriers]
    refine (linked_link ((lt_succ_self _).trans_eq secondRows.symm)).trans
      (or_congr_left ?_)
    exact linked_addRow.trans linked_addRow
  · rw [exists_lt_succ_right, ← or_assoc, ← added.waits, ← added.barriers]
    refine linked_addRow.trans ?_
    refine (linked_link (waitRows.symm ▸ lt_succ_self _)).trans
      (or_congr_left linked_addRow)
  · rw [Std.TreeMap.getElem?_insert, range_succ, map_append]
    by_cases same : syncTask blockSize count = task
    · rw [if_pos (Std.compare_eq_iff_eq.mpr same), if_pos (by simp [same]), ← same,
        syncTask_div pos, ← added.barriers]
    · rw [if_neg fun equal => same (Std.compare_eq_iff_eq.mp equal), added.found]
      simp only [mem_append, map_cons, map_nil, mem_singleton, Ne.symm same, or_false]

theorem addSyncBarriers_foldl (pos : 0 < blockSize) (valid : info.Valid) (count : Nat)
    (before : count ≤ info.lastBlock blockSize) (unsplit : info.controlGraphBlockSize = 0) :
    SyncBarriersAdded info blockSize count ((List.range' 1 count).foldl (addSyncBarriers blockSize)
      ⟨{ info with controlGraphBlockSize := blockSize }, ∅⟩) := by
  induction count with
  | zero =>
    refine ⟨⟨valid.mirrored, valid.barriers, valid.tasks, fun _ => valid.unsplit unsplit⟩, rfl, rfl,
      rfl, rfl, ?_, ?_, ?_⟩
    · simp
    · simp
    · simp
  | succ count ih =>
    rw [range'_concat, foldl_append, Nat.one_mul]
    refine addSyncBarriers_spec pos ?_ (ih (by omega))
    exact (lt_succ_self _).trans (syncTask_succ_lt pos before)

theorem SyncBarriersAdded.splitting (pos : 0 < blockSize)
    (added : SyncBarriersAdded info blockSize (info.lastBlock blockSize) state) :
    Splitting info blockSize state := by
  have entry : ∀ block < info.lastBlock blockSize,
      state.syncTaskWaitAndUpdateBarrierIndMap[syncTask blockSize block]? =
        some (info.getNumOfVirtualBarriers + 2 * block,
          info.getNumOfVirtualBarriers + 2 * block + 1) := by
    intro block before
    rw [added.found, if_pos (mem_map_of_mem (mem_range.mpr before)), syncTask_div pos]
  refine ⟨added.valid, added.allTaskOps, added.size, added.ids, added.barriers.ge,
    fun block before => ?_, fun block before => ?_, fun block before => ?_, fun task absent => ?_⟩
  · rw [Std.TreeMap.mem_iff_isSome_getElem?, entry block before]
    rfl
  · unfold SplitState.waitBarInd
    rw [Std.TreeMap.getD_eq_getD_getElem?, entry block before]
    rfl
  · unfold SplitState.updateBarInd
    rw [Std.TreeMap.getD_eq_getD_getElem?, entry block before]
    rfl
  · unfold SplitState.waitBarInd
    rw [Std.TreeMap.getD_eq_getD_getElem?, added.found, if_neg]
    · rfl
    · intro mem
      obtain ⟨block, inside, same⟩ := mem_map.mp mem
      exact absent block (mem_range.mp inside) same.symm

variable {blockSize : Nat} {tasks : TaskSet}

/-! ### The groups -/

/-- The groups made of a list of tasks. -/
structure Groups (blockSize : Nat) (tasks : List Nat) (groups : Std.TreeMap Nat TaskSet) :
    Prop where
  mem_getD : ∀ block task, task ∈ groups.getD block ∅ ↔ task ∈ tasks ∧ task / blockSize = block
  mem : ∀ block, block ∈ groups ↔ ∃ task ∈ tasks, task / blockSize = block

theorem Groups.insert {earlier : List Nat} {groups : Std.TreeMap Nat TaskSet}
    (grouped : Groups blockSize earlier groups) (task : Nat) :
    Groups blockSize (earlier ++ [task]) (groups.insert (task / blockSize)
      ((groups.getD (task / blockSize) ∅).insert task)) := by
  refine ⟨fun block other => ?_, fun block => ?_⟩
  · rw [Std.TreeMap.getD_insert, mem_append, mem_singleton]
    by_cases same : task / blockSize = block
    · rw [if_pos (Std.compare_eq_iff_eq.mpr same), SmallSet.mem_insert, grouped.mem_getD, same,
        or_and_right]
      refine or_congr_right (and_iff_left_of_imp ?_).symm
      rintro rfl
      exact same
    · rw [if_neg fun equal => same (Std.compare_eq_iff_eq.mp equal), grouped.mem_getD,
        or_and_right, or_iff_left]
      rintro ⟨rfl, own⟩
      exact same own
  · rw [Std.TreeMap.mem_insert, grouped.mem]
    simp only [Std.compare_eq_iff_eq, mem_append, mem_singleton, or_and_right, exists_or,
      exists_eq_left]
    exact or_comm

theorem groupByBlock_spec (blockSize : Nat) (tasks : TaskSet) :
    Groups blockSize tasks.elements (groupByBlock blockSize tasks) := by
  have run : ∀ (rest earlier : List Nat) (groups : Std.TreeMap Nat TaskSet),
      Groups blockSize earlier groups → Groups blockSize (earlier ++ rest)
        (rest.foldl (fun groups taskInd => groups.insert (taskInd / blockSize)
          ((groups.getD (taskInd / blockSize) ∅).insert taskInd)) groups) := by
    intro rest
    induction rest with
    | nil =>
      intro earlier groups grouped
      rw [append_nil]
      exact grouped
    | cons head tail ih =>
      intro earlier groups grouped
      have split : earlier ++ head :: tail = (earlier ++ [head]) ++ tail := by simp
      rw [split]
      exact ih _ _ (grouped.insert head)
  exact run tasks.elements [] ∅ ⟨by simp, by simp⟩

section Blocks

variable {groups : Std.TreeMap Nat TaskSet} {list : List Nat}
  (grouped : Groups blockSize list groups)

include grouped

theorem Groups.mem_toList {group : Nat × TaskSet} (mem : group ∈ groups.toList) (task : Nat) :
    task ∈ group.2 ↔ task ∈ list ∧ task / blockSize = group.1 := by
  have found := Std.TreeMap.mem_toList_iff_getElem?_eq_some.mp mem
  rw [← grouped.mem_getD, Std.TreeMap.getD_eq_getD_getElem?, found]
  rfl

theorem Groups.exists_group {task : Nat} (mem : task ∈ list) :
    ∃ group ∈ groups.toList, group.1 = task / blockSize ∧ task ∈ group.2 := by
  have present := (grouped.mem (task / blockSize)).mpr ⟨task, mem, rfl⟩
  obtain ⟨tasks, found⟩ := Option.isSome_iff_exists.mp
    (Std.TreeMap.mem_iff_isSome_getElem?.mp present)
  have entry := Std.TreeMap.mem_toList_iff_getElem?_eq_some.mpr found
  exact ⟨(task / blockSize, tasks), entry, rfl, (grouped.mem_toList entry task).mpr ⟨mem, rfl⟩⟩

theorem Groups.exists_task {group : Nat × TaskSet} (mem : group ∈ groups.toList) :
    ∃ task ∈ list, task / blockSize = group.1 := by
  refine (grouped.mem group.1).mp ?_
  rw [Std.TreeMap.mem_iff_isSome_getElem?, Std.TreeMap.mem_toList_iff_getElem?_eq_some.mp mem]
  rfl

omit grouped in
theorem toList_sorted (groups : Std.TreeMap Nat TaskSet) :
    (groups.toList.map Prod.fst).Pairwise (· < ·) := by
  rw [pairwise_map]
  exact Std.TreeMap.ordered_keys_toList.imp compare_lt_iff_lt.mp

theorem Groups.headD_spec (nonempty : ∃ task, task ∈ list) :
    (∃ task ∈ list, task / blockSize = (groups.toList.headD (0, ∅)).1) ∧
      ∀ task ∈ list, (groups.toList.headD (0, ∅)).1 ≤ task / blockSize := by
  obtain ⟨some, present⟩ := nonempty
  obtain ⟨first, rest, shape⟩ : ∃ first rest, groups.toList = first :: rest := by
    obtain ⟨group, mem, _⟩ := grouped.exists_group present
    exact exists_cons_of_ne_nil (ne_nil_of_mem mem)
  have sorted := toList_sorted groups
  rw [shape, map_cons, pairwise_cons] at sorted
  rw [shape, headD_cons]
  refine ⟨grouped.exists_task (shape ▸ mem_cons_self), fun task mem => ?_⟩
  obtain ⟨group, inside, same, _⟩ := grouped.exists_group mem
  rw [shape, mem_cons] at inside
  rcases inside with equal | later
  · rw [← same, equal]
  · rw [← same]
    exact (sorted.1 group.1 (mem_map_of_mem later)).le

theorem Groups.getLastD_spec (nonempty : ∃ task, task ∈ list) :
    (∃ task ∈ list, task / blockSize = (groups.toList.getLastD (0, ∅)).1) ∧
      ∀ task ∈ list, task / blockSize ≤ (groups.toList.getLastD (0, ∅)).1 := by
  obtain ⟨some, present⟩ := nonempty
  have filled : groups.toList ≠ [] := by
    obtain ⟨group, mem, _⟩ := grouped.exists_group present
    exact ne_nil_of_mem mem
  have shape := dropLast_append_getLast filled
  have sorted := toList_sorted groups
  rw [← shape, map_append, pairwise_append] at sorted
  rw [getLastD_eq_getLast?, getLast?_eq_some_getLast filled, Option.getD_some]
  refine ⟨grouped.exists_task (getLast_mem filled), fun task mem => ?_⟩
  obtain ⟨group, inside, same, _⟩ := grouped.exists_group mem
  rw [← shape, mem_append, mem_singleton] at inside
  rcases inside with earlier | equal
  · rw [← same]
    exact (sorted.2.2 group.1 (mem_map_of_mem earlier) _ (by simp)).le
  · rw [← same, equal]

theorem Groups.mem_otherBlocks (block task : Nat) :
    (∃ group ∈ otherBlocks block groups, task ∈ group.2) ↔
      task ∈ list ∧ task / blockSize ≠ block := by
  constructor
  · rintro ⟨group, mem, inside⟩
    obtain ⟨listed, different⟩ := mem_filter.mp mem
    obtain ⟨own, same⟩ := (grouped.mem_toList listed task).mp inside
    exact ⟨own, same ▸ of_decide_eq_true different⟩
  · rintro ⟨own, different⟩
    obtain ⟨group, listed, same, inside⟩ := grouped.exists_group own
    exact ⟨group, mem_filter.mpr ⟨listed, decide_eq_true (same ▸ different)⟩, inside⟩

theorem Groups.exists_otherBlocks (block task : Nat) (holds : Nat → Prop) :
    (∃ group ∈ otherBlocks block groups, task ∈ group.2 ∧ holds group.1) ↔
      (task ∈ list ∧ task / blockSize ≠ block) ∧ holds (task / blockSize) := by
  rw [← grouped.mem_otherBlocks]
  constructor
  · rintro ⟨group, mem, inside, held⟩
    have own := ((grouped.mem_toList (mem_filter.mp mem).1 task).mp inside).2
    exact ⟨⟨group, mem, inside⟩, own ▸ held⟩
  · rintro ⟨⟨group, mem, inside⟩, held⟩
    have own := ((grouped.mem_toList (mem_filter.mp mem).1 task).mp inside).2
    exact ⟨group, mem, inside, own ▸ held⟩

theorem Groups.otherBlocks_spec {block : Nat} {group : Nat × TaskSet}
    (mem : group ∈ otherBlocks block groups) : group.1 ≠ block ∧
      (∀ task ∈ group.2, task ∈ list ∧ task / blockSize = group.1) ∧
      ∃ task ∈ list, task / blockSize = group.1 := by
  obtain ⟨listed, different⟩ := mem_filter.mp mem
  exact ⟨of_decide_eq_true different, fun task => (grouped.mem_toList listed task).mp,
    grouped.exists_task listed⟩

omit grouped in
theorem otherBlocks_pairwise (block : Nat) (groups : Std.TreeMap Nat TaskSet) :
    (otherBlocks block groups).Pairwise fun first second => first.1 ≠ second.1 := by
  have sorted := toList_sorted groups
  rw [pairwise_map] at sorted
  exact (sorted.imp ne_of_lt).filter _

end Blocks

end NpuPlugin.BarrierInfo
