/-
This file models how tasks are put into execution groups and how a task that fetches the metadata of
each group is put into the list of DMA tasks. In every list that the pass gives, the metadata of a
group is fetched once, in time, and only when the group two before is done.
-/

import Mathlib.Algebra.Ring.Nat
import Mathlib.Data.List.Dedup
import Mathlib.Data.List.GetD
import Mathlib.Data.List.MinMax
import NpuPlugin.Library.Insertion
import NpuPlugin.Library.Loop

namespace NpuPlugin.WorkloadManagement

open Insertion List Nat Option Relation

/-! ### Tasks -/

/-- The primary type of a group: invariants with their variants, or kernel ranges with their
invocations. -/
inductive TaskType
  | dpuInvariant
  | actKernelRange
deriving DecidableEq, Repr

/-- A variant or an invocation. -/
structure SecondaryTask where
  index : Nat
  waitBarriers : List Nat
  updateBarriers : List Nat
deriving DecidableEq, Repr

/-- An invariant or a kernel range, with the secondary tasks that use it. -/
structure PrimaryTask where
  waitBarriers : List Nat
  updateBarriers : List Nat
  secondaries : List SecondaryTask
deriving DecidableEq, Repr

structure NNDMAOp where
  tileIdx : Nat
  listIdx : Nat
  waitBarriers : List Nat
  updateBarriers : List Nat
deriving DecidableEq, Repr

/-- The function. A barrier has its dependencies among the barriers before it, and the tasks of a
type and tile are in the order of their list. -/
structure Program where
  tilesCount : Nat
  barriers : List (List Nat)
  dmas : List NNDMAOp
  tasks : TaskType → Nat → List PrimaryTask
  dependencies_before : ∀ barr < barriers.length, ∀ dependency ∈ barriers.getD barr [],
    dependency < barr

/-! ### Execution groups -/

/-- `VPURegMapped::ExecutionGroupOp`, with the primary tasks that are moved into it. -/
structure ExecutionGroupOp where
  tasks : List PrimaryTask
  waitBarriers : List Nat
  updateBarriers : List Nat
deriving DecidableEq, Repr

/-- Half of the number of tasks whose metadata is held. -/
def maxPrimaryCount : TaskType → Nat
  | .dpuInvariant => 64 / 2
  | .actKernelRange => 64 / 2

def maxSecondaryCount : TaskType → Nat
  | .dpuInvariant => 128 / 2
  | .actKernelRange => 64 / 2

/-- The loop of `getNextUntil`: how many of the following tasks it passes. -/
def passedTasks (maxPrimary maxSecondary : Nat) : Nat → Nat → List PrimaryTask → Nat
  | _, _, [] => 0
  | primaryCount, secondaryCount, next :: rest =>
    if primaryCount + 1 < maxPrimary ∧
        secondaryCount + next.secondaries.length < maxSecondary then
      passedTasks maxPrimary maxSecondary (primaryCount + 1)
        (secondaryCount + next.secondaries.length) rest + 1
    else 0

variable (type : TaskType)

/-- `getNextUntil`: how many tasks follow the first one in its group. -/
def getNextUntil (start : PrimaryTask) (rest : List PrimaryTask) : Nat :=
  if maxPrimaryCount type = 1 then 0
  else passedTasks (maxPrimaryCount type) (maxSecondaryCount type) 1 start.secondaries.length rest

def barrieredWaits (primary : PrimaryTask) (secondary : SecondaryTask) : List Nat :=
  match type with
  | .dpuInvariant => primary.waitBarriers
  | .actKernelRange => secondary.waitBarriers

def barrieredUpdates (primary : PrimaryTask) (secondary : SecondaryTask) : List Nat :=
  match type with
  | .dpuInvariant => primary.updateBarriers
  | .actKernelRange => secondary.updateBarriers

/-- One group, of a task and some that follow it. A primary task has a secondary one. -/
def createGroup (minPrimary : PrimaryTask) (others : List PrimaryTask) :
    Option ExecutionGroupOp := do
  let maxPrimary := others.getLastD minPrimary
  let minSecondary ← minPrimary.secondaries.argmin SecondaryTask.index
  let maxSecondary ← maxPrimary.secondaries.argmax SecondaryTask.index
  return ⟨minPrimary :: others, barrieredWaits type minPrimary minSecondary,
    barrieredUpdates type maxPrimary maxSecondary⟩

/-- `groupExecOps` on one tile, with a bound on the number of groups. -/
def groupTasks (type : TaskType) : Nat → List PrimaryTask → Option (List ExecutionGroupOp)
  | _, [] => some []
  | 0, _ :: _ => none
  | fuel + 1, traveler :: rest => do
    let group ← createGroup type traveler (rest.take (getNextUntil type traveler rest))
    let groups ← groupTasks type fuel (rest.drop (getNextUntil type traveler rest))
    return group :: groups

namespace Program

variable (prog : Program)

/-- A group has a task at least. -/
def groupExecOps (type : TaskType) (tileIdx : Nat) : Option (List ExecutionGroupOp) :=
  groupTasks type (prog.tasks type tileIdx).length (prog.tasks type tileIdx)

/-- `GroupExecutionOpsPass`: the groups of each type and tile. -/
def groupExecutionOps : Option (TaskType → Nat → List ExecutionGroupOp) :=
  if ∀ tileIdx < prog.tilesCount, (prog.groupExecOps .dpuInvariant tileIdx).isSome ∧
      (prog.groupExecOps .actKernelRange tileIdx).isSome then
    some fun type tileIdx => (prog.groupExecOps type tileIdx).getD []
  else none

/-! ### Searches over barriers -/

def getDependencies (barr : Nat) : List Nat := prog.barriers.getD barr []

def getDependents (barr : Nat) : List Nat :=
  (List.range prog.barriers.length).filter fun dependent => barr ∈ prog.getDependencies dependent

def InList (dma : Nat) (task : NNDMAOp) : Prop :=
  prog.dmas[dma]? = some task ∧ task.listIdx = 0 ∧ task.tileIdx = 0

def producesBarrier (barr dma : Nat) : Bool :=
  (prog.dmas[dma]?).any fun task => task.listIdx = 0 ∧ task.tileIdx = 0 ∧ barr ∈ task.updateBarriers

def consumesBarrier (barr dma : Nat) : Bool :=
  (prog.dmas[dma]?).any fun task => task.listIdx = 0 ∧ task.tileIdx = 0 ∧ barr ∈ task.waitBarriers

def lastProducer (indexOf : Nat → Nat) (barrs : List Nat) : Option Nat :=
  (barrs.filterMap fun waitBarr => ((List.range prog.dmas.length).filter
    (prog.producesBarrier waitBarr)).argmax indexOf).argmax indexOf

def firstConsumer (indexOf : Nat → Nat) (barrs : List Nat) : Option Nat :=
  (barrs.filterMap fun updateBarr => ((List.range prog.dmas.length).filter
    (prog.consumesBarrier updateBarr)).argmin indexOf).argmin indexOf

end Program

/-- The search goes on level by level until it finds something. -/
def searchLevels (nextOf : Nat → List Nat) (find : List Nat → Option Nat) :
    Nat → List Nat → Option Nat
  | 0, _ => none
  | fuel + 1, barriers =>
    match find barriers with
    | some dma => some dma
    | none =>
      let newLevel := (barriers.flatMap nextOf).dedup
      if newLevel = [] then none else searchLevels nextOf find fuel newLevel

namespace Program

variable (prog : Program)

/-- `findLastDma` of a group. There are no more levels than barriers, behind the first one. -/
def findLastDma (indexOf : Nat → Nat) (group : ExecutionGroupOp) : Option Nat :=
  searchLevels prog.getDependencies (prog.lastProducer indexOf)
    (prog.barriers.length + 1) group.waitBarriers.dedup

/-- `findFirstDma` of a group. -/
def findFirstDma (indexOf : Nat → Nat) (group : ExecutionGroupOp) : Option Nat :=
  searchLevels prog.getDependents (prog.firstConsumer indexOf)
    (prog.barriers.length + 1) group.updateBarriers.dedup

end Program

/-! ### Fetch tasks -/

/-- A task of the list of DMA tasks. A fetch task has the first and last indexes of its group. -/
inductive DmaTask
  | nnDma (dma : Nat)
  | fetchTask (taskType : TaskType) (tileIdx group : Nat)
deriving DecidableEq, Repr

def DmaTask.nnDma? : DmaTask → Option Nat
  | .nnDma dma => some dma
  | .fetchTask .. => none

/-- The list in its order, and the indexes the DMA tasks had when it was last reindexed. -/
structure DmaList where
  tasks : List DmaTask
  indexOf : Nat → Nat

def DmaList.reindexList (list : DmaList) : DmaList :=
  { list with indexOf := fun dma =>
      if .nnDma dma ∈ list.tasks then list.tasks.idxOf (.nnDma dma) else list.indexOf dma }

def getNextDma (fetch : DmaTask) (tasks : List DmaTask) : Option Nat :=
  (tasks.dropWhile (· ≠ fetch)).tail.findSome? DmaTask.nnDma?

/-- The groups so far on a tile. -/
structure Traveling where
  tasks : List DmaTask
  parentNumber : Nat
  parentGroup : ExecutionGroupOp
  grandParentGroup : Option ExecutionGroupOp

namespace Program

variable (prog : Program)

/-- `insertionDma`. -/
def findInsertionDma (indexOf : Nat → Nat) (parentFetchDma : Nat) (parentGroup : ExecutionGroupOp)
    (grandParentGroup : Option ExecutionGroupOp) : Option Nat :=
  match grandParentGroup with
  | some group => (prog.findFirstDma indexOf group).map fun firstGrandParentDma =>
    if indexOf firstGrandParentDma < indexOf parentFetchDma then parentFetchDma
    else firstGrandParentDma
  | none => prog.findLastDma indexOf parentGroup

/-- One turn of the loop over the groups of a tile. -/
def fetchGroup (taskType : TaskType) (tileIdx : Nat) (indexOf : Nat → Nat) (state : Traveling)
    (travelingGroup : ExecutionGroupOp) : Option Traveling := do
  let parentFetchDma ← getNextDma (.fetchTask taskType tileIdx state.parentNumber) state.tasks
  let insertionDma ←
    prog.findInsertionDma indexOf parentFetchDma state.parentGroup state.grandParentGroup
  let lastDma ← prog.findLastDma indexOf travelingGroup
  if indexOf lastDma ≤ indexOf insertionDma then none
  else
    return {
      tasks := insertAfter (.nnDma insertionDma)
        (.fetchTask taskType tileIdx (state.parentNumber + 1)) state.tasks
      parentNumber := state.parentNumber + 1
      parentGroup := travelingGroup
      grandParentGroup := some state.parentGroup }

/-- The groups of one tile. The list has a head. -/
def addTileFetchTasks (taskType : TaskType) (tileIdx : Nat) (list : DmaList) :
    List ExecutionGroupOp → Option DmaList
  | [] => some list
  | firstGroup :: groups =>
    if list.tasks = [] then none
    else do
      let final ← groups.foldlM (prog.fetchGroup taskType tileIdx list.indexOf)
        ⟨.fetchTask taskType tileIdx 0 :: list.tasks, 0, firstGroup, none⟩
      return DmaList.reindexList { list with tasks := final.tasks }

def addFetchTasks (groups : TaskType → Nat → List ExecutionGroupOp) (list : DmaList)
    (taskType : TaskType) : Option DmaList :=
  (List.range prog.tilesCount).foldlM
    (fun list tileIdx => prog.addTileFetchTasks taskType tileIdx list (groups taskType tileIdx))
    list

/-- The DMA tasks of the list, which are indexed by their places. -/
def initialList : DmaList :=
  DmaList.reindexList {
    tasks := ((List.range prog.dmas.length).filter fun dma =>
      (prog.dmas[dma]?).any fun task => task.listIdx = 0 ∧ task.tileIdx = 0).map .nnDma
    indexOf := id }

/-- `WorkloadManagementPass`. -/
def workloadManagement (groups : TaskType → Nat → List ExecutionGroupOp) :
    Option (List DmaTask) := do
  let list ← [TaskType.dpuInvariant, .actKernelRange].foldlM (prog.addFetchTasks groups)
    prog.initialList
  return list.tasks

end Program

/-! ### Groups -/

variable {type : TaskType} {group : ExecutionGroupOp}

theorem createGroup_tasks {minPrimary : PrimaryTask} {others : List PrimaryTask}
    (created : createGroup type minPrimary others = some group) :
    group.tasks = minPrimary :: others := by
  unfold createGroup at created
  simp only [bind_eq_bind, bind_eq_some_iff, Option.pure_def, Option.some.injEq] at created
  obtain ⟨minSecondary, -, maxSecondary, -, rfl⟩ := created
  rfl

variable {fuel : Nat}

theorem groupTasks_tasks {tasks : List PrimaryTask}
    {groups : List ExecutionGroupOp} (grouped : groupTasks type fuel tasks = some groups) :
    groups.flatMap ExecutionGroupOp.tasks = tasks := by
  induction fuel generalizing tasks groups with
  | zero =>
    cases tasks with
    | nil =>
      cases grouped
      rfl
    | cons traveler rest => cases grouped
  | succ fuel ih =>
    cases tasks with
    | nil =>
      cases grouped
      rfl
    | cons traveler rest =>
      rw [groupTasks] at grouped
      simp only [bind_eq_bind, bind_eq_some_iff, Option.pure_def, Option.some.injEq] at grouped
      obtain ⟨group, created, later, isLater, rfl⟩ := grouped
      rw [flatMap_cons, createGroup_tasks created, ih isLater, cons_append, take_append_drop]

/-! ### Searches -/

variable {dma : Nat}

section

variable {nextOf : Nat → List Nat} {find : List Nat → Option Nat} {fuel : Nat}
  {barriers : List Nat}

/-- What is found is found in a level that is reached from the first one. -/
theorem searchLevels_reached
    (found : searchLevels nextOf find fuel barriers = some dma) :
    ∃ level, find level = some dma ∧
      ∀ barr ∈ level, ∃ start ∈ barriers, ReflTransGen (fun a b => b ∈ nextOf a) start barr := by
  induction fuel generalizing barriers with
  | zero => cases found
  | succ fuel ih =>
    rw [searchLevels] at found
    split at found
    · rename_i here
      exact ⟨barriers, here.trans found, fun barr mem => ⟨barr, mem, .refl⟩⟩
    · dsimp only at found
      split at found
      · cases found
      · obtain ⟨level, isFound, reached⟩ := ih found
        refine ⟨level, isFound, fun barr mem => ?_⟩
        obtain ⟨middle, isMiddle, path⟩ := reached barr mem
        obtain ⟨start, isStart, follows⟩ := mem_flatMap.mp (mem_dedup.mp isMiddle)
        exact ⟨start, isStart, .head follows path⟩

end

namespace Program

variable (prog : Program)

theorem getDependencies_lt {barr dependency : Nat} (mem : dependency ∈ prog.getDependencies barr) :
    dependency < barr ∧ barr < prog.barriers.length := by
  have inside : barr < prog.barriers.length := by
    by_contra outside
    unfold getDependencies at mem
    rw [getD_eq_default _ _ (not_lt.mp outside)] at mem
    exact absurd mem not_mem_nil
  exact ⟨prog.dependencies_before barr inside dependency mem, inside⟩

theorem mem_getDependents {barr dependent : Nat} :
    dependent ∈ prog.getDependents barr ↔ barr ∈ prog.getDependencies dependent := by
  unfold getDependents
  rw [mem_filter, mem_range, decide_eq_true_eq]
  exact and_iff_right_of_imp fun mem => (prog.getDependencies_lt mem).2

/-! ### The condition on groups -/

/-- A barrier that is released only when another one is. -/
def DependsOn (barr dependency : Nat) : Prop := dependency ∈ prog.getDependencies barr

/-- A DMA task of the list that runs only after the last task of a group has updated one of its
barriers. -/
def RunsAfter (group : ExecutionGroupOp) (dma : Nat) : Prop :=
  ∃ updated ∈ group.updateBarriers, ∃ waited, ReflTransGen prog.DependsOn waited updated ∧
    ∃ task, prog.InList dma task ∧ waited ∈ task.waitBarriers

/-- A DMA task of the list on whose completion a wait barrier of the first task of a group
depends. -/
def RunsBefore (group : ExecutionGroupOp) (dma : Nat) : Prop :=
  ∃ waited ∈ group.waitBarriers, ∃ produced, ReflTransGen prog.DependsOn waited produced ∧
    ∃ task, prog.InList dma task ∧ produced ∈ task.updateBarriers

variable {barr dma : Nat} {indexOf : Nat → Nat} {group : ExecutionGroupOp}

theorem exists_of_producesBarrier (produces : prog.producesBarrier barr dma = true) :
    ∃ task, prog.InList dma task ∧ barr ∈ task.updateBarriers := by
  obtain ⟨task, isTask, inList⟩ := (any_eq_true _ _).mp produces
  obtain ⟨isList, isTile, updates⟩ := decide_eq_true_eq.mp inList
  exact ⟨task, ⟨isTask, isList, isTile⟩, updates⟩

theorem exists_of_consumesBarrier (consumes : prog.consumesBarrier barr dma = true) :
    ∃ task, prog.InList dma task ∧ barr ∈ task.waitBarriers := by
  obtain ⟨task, isTask, inList⟩ := (any_eq_true _ _).mp consumes
  obtain ⟨isList, isTile, waits⟩ := decide_eq_true_eq.mp inList
  exact ⟨task, ⟨isTask, isList, isTile⟩, waits⟩

theorem runsBefore_of_findLastDma (found : prog.findLastDma indexOf group = some dma) :
    prog.RunsBefore group dma := by
  obtain ⟨level, isFound, reached⟩ := searchLevels_reached found
  obtain ⟨barr, isBarrier, last⟩ := mem_filterMap.mp (argmax_mem isFound)
  have produces := (mem_filter.mp (argmax_mem last)).2
  obtain ⟨waited, isWaited, path⟩ := reached barr isBarrier
  exact ⟨waited, mem_dedup.mp isWaited, barr, path, prog.exists_of_producesBarrier produces⟩

theorem runsAfter_of_findFirstDma (found : prog.findFirstDma indexOf group = some dma) :
    prog.RunsAfter group dma := by
  obtain ⟨level, isFound, reached⟩ := searchLevels_reached found
  obtain ⟨barr, isBarrier, first⟩ := mem_filterMap.mp (argmin_mem isFound)
  have consumes := (mem_filter.mp (argmin_mem first)).2
  obtain ⟨updated, isUpdated, path⟩ := reached barr isBarrier
  refine ⟨updated, mem_dedup.mp isUpdated, barr, ?_, prog.exists_of_consumesBarrier consumes⟩
  exact reflTransGen_swap.mp
    (ReflTransGen.mono (fun _ _ mem => (prog.mem_getDependents).mp mem) _ _ path)

end Program

/-! ### Groups within limits -/

/-- `getNextUntil` with the limits of its caller. -/
def nextUntil (maxPrimary maxSecondary : Nat) (start : PrimaryTask) (rest : List PrimaryTask) :
    Nat :=
  if maxPrimary = 1 then 0
  else passedTasks maxPrimary maxSecondary 1 start.secondaries.length rest

def groupWithin (type : TaskType) (maxPrimary maxSecondary : Nat) :
    Nat → List PrimaryTask → Option (List ExecutionGroupOp)
  | _, [] => some []
  | 0, _ :: _ => none
  | fuel + 1, traveler :: rest => do
    let group ←
      createGroup type traveler (rest.take (nextUntil maxPrimary maxSecondary traveler rest))
    let groups ← groupWithin type maxPrimary maxSecondary fuel
      (rest.drop (nextUntil maxPrimary maxSecondary traveler rest))
    return group :: groups

variable {maxPrimary maxSecondary : Nat} (type : TaskType)

theorem groupTasks_eq_groupWithin (fuel : Nat) (tasks : List PrimaryTask) :
    groupTasks type fuel tasks =
      groupWithin type (maxPrimaryCount type) (maxSecondaryCount type) fuel tasks := by
  induction fuel generalizing tasks with
  | zero => cases tasks <;> rfl
  | succ fuel ih =>
    cases tasks with
    | nil => rfl
    | cons traveler rest =>
      rw [groupTasks, groupWithin, ih]
      rfl

def secondaryCount (tasks : List PrimaryTask) : Nat :=
  (tasks.map fun task => task.secondaries.length).sum

@[simp]
theorem secondaryCount_cons (task : PrimaryTask) (tasks : List PrimaryTask) :
    secondaryCount (task :: tasks) = task.secondaries.length + secondaryCount tasks :=
  sum_cons

theorem passedTasks_within {primaries secondaries : Nat} {rest : List PrimaryTask}
    (primary : primaries ≤ maxPrimary) (secondary : secondaries ≤ maxSecondary) :
    primaries + passedTasks maxPrimary maxSecondary primaries secondaries rest ≤ maxPrimary ∧
      secondaries + secondaryCount
        (rest.take (passedTasks maxPrimary maxSecondary primaries secondaries rest)) ≤
          maxSecondary := by
  induction rest generalizing primaries secondaries with
  | nil => exact ⟨primary, secondary⟩
  | cons next rest ih =>
    rw [passedTasks]
    split
    · rename_i below
      have later := ih below.1.le below.2.le
      rw [take_succ_cons, secondaryCount_cons, ← add_assoc secondaries]
      exact ⟨by rw [add_comm _ 1, ← add_assoc]; exact later.1, later.2⟩
    · exact ⟨primary, secondary⟩

theorem nextUntil_within {start : PrimaryTask} (rest : List PrimaryTask)
    (primaryLimit : 1 ≤ maxPrimary) (secondary : start.secondaries.length ≤ maxSecondary) :
    1 + nextUntil maxPrimary maxSecondary start rest ≤ maxPrimary ∧
      secondaryCount (start :: rest.take (nextUntil maxPrimary maxSecondary start rest)) ≤
        maxSecondary := by
  unfold nextUntil
  split
  · exact ⟨primaryLimit, secondary⟩
  · rw [secondaryCount_cons]
    exact passedTasks_within primaryLimit secondary

theorem exists_createGroup (minPrimary : PrimaryTask) (others : List PrimaryTask)
    (used : ∀ task ∈ minPrimary :: others, 0 < task.secondaries.length) :
    ∃ group, createGroup type minPrimary others = some group := by
  have someOf {task : PrimaryTask} (mem : task ∈ minPrimary :: others) :
      (∃ least, task.secondaries.argmin SecondaryTask.index = some least) ∧
        ∃ greatest, task.secondaries.argmax SecondaryTask.index = some greatest := by
    have nonempty := ne_nil_of_length_pos (used task mem)
    exact ⟨ne_none_iff_exists'.mp (mt argmin_eq_none.mp nonempty),
      ne_none_iff_exists'.mp (mt argmax_eq_none.mp nonempty)⟩
  have isLast : others.getLastD minPrimary ∈ minPrimary :: others := getLastD_mem_cons
  obtain ⟨minSecondary, isMin⟩ := (someOf mem_cons_self).1
  obtain ⟨maxSecondary, isMax⟩ := (someOf isLast).2
  exact ⟨_, by rw [createGroup, isMin, isMax]; rfl⟩

/-- A group has a task at least, and no more of either kind than its half holds. -/
structure ExecutionGroupOp.Fits (maxPrimary maxSecondary : Nat) (group : ExecutionGroupOp) :
    Prop where
  nonempty : group.tasks ≠ []
  primary : group.tasks.length ≤ maxPrimary
  secondary : secondaryCount group.tasks ≤ maxSecondary

theorem exists_groupWithin {tasks : List PrimaryTask} (primaryLimit : 1 ≤ maxPrimary)
    (enough : tasks.length ≤ fuel) (within : ∀ task ∈ tasks,
      0 < task.secondaries.length ∧ task.secondaries.length ≤ maxSecondary) :
    ∃ groups, groupWithin type maxPrimary maxSecondary fuel tasks = some groups ∧
      groups.flatMap ExecutionGroupOp.tasks = tasks ∧
      ∀ group ∈ groups, group.Fits maxPrimary maxSecondary := by
  induction fuel generalizing tasks with
  | zero =>
    rw [length_eq_zero_iff.mp (le_zero.mp enough)]
    exact ⟨[], rfl, rfl, forall_mem_nil _⟩
  | succ fuel ih =>
    cases tasks with
    | nil => exact ⟨[], rfl, rfl, forall_mem_nil _⟩
    | cons traveler rest =>
      set passed := nextUntil maxPrimary maxSecondary traveler rest with isPassed
      obtain ⟨few, fewSecondaries⟩ :=
        nextUntil_within rest primaryLimit (within traveler mem_cons_self).2
      rw [← isPassed] at few fewSecondaries
      obtain ⟨group, created⟩ := exists_createGroup type traveler (rest.take passed)
        fun task mem => (within task (cons_subset_cons _ (take_subset _ _) mem)).1
      have fewer : (rest.drop passed).length ≤ fuel := by
        rw [length_drop]
        exact (sub_le _ _).trans (le_of_succ_le_succ enough)
      obtain ⟨groups, later, areTasks, fit⟩ := ih fewer
        fun task mem => within task (.tail _ (mem_of_mem_drop mem))
      refine ⟨group :: groups, ?_, ?_, ?_⟩
      · rw [groupWithin, ← isPassed, created, later]
        rfl
      · rw [flatMap_cons, createGroup_tasks created, areTasks, cons_append, take_append_drop]
      · rw [forall_mem_cons]
        refine ⟨⟨?_, ?_, ?_⟩, fit⟩ <;> rw [createGroup_tasks created]
        · exact cons_ne_nil _ _
        · rw [length_cons, length_take]
          omega
        · exact fewSecondaries

/-! ### Locations -/

/-- The buffers of the tasks of one group, at the end of its half, with none for an index outside
of the buffers. -/
def taskLocations (groupSize groupCtr numberOfOpsInGroup : Nat) : Option (List Nat) :=
  (List.range numberOfOpsInGroup).mapM fun taskCtr : Nat =>
    let location : Int := groupCtr + taskCtr + (groupSize - numberOfOpsInGroup : Int)
    if 0 ≤ location ∧ location < groupSize * 2 then some location.toNat else none

/-- `solveGroupOps`, given how many tasks of the type each group has. -/
def solveGroupOps (groupSize : Nat) : Nat → List Nat → Option (List (List Nat))
  | _, [] => some []
  | groupCtr, numberOfOpsInGroup :: rest => do
    let locations ← taskLocations groupSize groupCtr numberOfOpsInGroup
    let later ← solveGroupOps groupSize ((groupCtr + groupSize) % (groupSize * 2)) rest
    return locations :: later

/-- The buffer of a task of the group at a place. -/
def locationOf (groupSize place numberOfOpsInGroup taskCtr : Nat) : Nat :=
  place % 2 * groupSize + (groupSize - numberOfOpsInGroup) + taskCtr

variable {groupSize count : Nat} {counts : List Nat} (place : Nat)

theorem locationOf_lt {taskCtr : Nat} (fits : count ≤ groupSize) (isTask : taskCtr < count) :
    locationOf groupSize place count taskCtr < groupSize * 2 := by
  unfold locationOf
  rcases mod_two_eq_zero_or_one place with half | half <;> rw [half] <;> omega

theorem taskLocations_eq (fits : count ≤ groupSize) :
    taskLocations groupSize (place % 2 * groupSize) count =
      some ((List.range count).map (locationOf groupSize place count)) := by
  refine Attempt.mapM_eq_some_iff.mpr
    (forall₂_map_right_iff.mpr (forall₂_same.mpr fun taskCtr isTask => ?_))
  have below := locationOf_lt place fits (mem_range.mp isTask)
  have exactly : ((place % 2 * groupSize : Nat) : Int) + taskCtr + (groupSize - count : Int) =
      locationOf groupSize place count taskCtr := by
    unfold locationOf
    omega
  rw [exactly, if_pos ⟨Int.natCast_nonneg _, by exact_mod_cast below⟩, Int.toNat_natCast]

theorem solveGroupOps_eq (fit : ∀ count ∈ counts, count ≤ groupSize) :
    solveGroupOps groupSize (place % 2 * groupSize) counts =
      some (counts.mapIdx fun turn count =>
        (List.range count).map (locationOf groupSize (place + turn) count)) := by
  induction counts generalizing place with
  | nil => rfl
  | cons count counts ih =>
    have otherHalf : (place % 2 * groupSize + groupSize) % (groupSize * 2) =
        (place + 1) % 2 * groupSize := by
      rw [mul_comm groupSize 2, ← succ_mul, mul_mod_mul_right]
      congr 1
      omega
    rw [forall_mem_cons] at fit
    rw [solveGroupOps, taskLocations_eq place fit.1, otherHalf, ih _ fit.2, mapIdx_cons]
    simp only [bind_eq_bind, bind_some, Option.pure_def, add_zero, add_assoc, add_comm 1]

/-- The buffer of a task, by the place of its group and its place in the group. -/
def locationAt (locations : List (List Nat)) (place taskCtr : Nat) : Option Nat :=
  locations[place]?.bind fun group => group[taskCtr]?

/-- Each task has a buffer, and two tasks with one buffer are in different groups whose places
have the same parity. -/
structure LocationsApart (groupSize : Nat) (counts : List Nat) (locations : List (List Nat)) :
    Prop where
  resolved : solveGroupOps groupSize 0 counts = some locations
  lengths : locations.map List.length = counts
  inRange {place taskCtr location : Nat} :
    locationAt locations place taskCtr = some location → location < groupSize * 2
  apart {place taskCtr place' taskCtr' location : Nat} :
    locationAt locations place taskCtr = some location →
    locationAt locations place' taskCtr' = some location →
    (place = place' ∧ taskCtr = taskCtr') ∨ (place ≠ place' ∧ place % 2 = place' % 2)

theorem exists_locationsApart (fit : ∀ count ∈ counts, count ≤ groupSize) :
    ∃ locations, LocationsApart groupSize counts locations := by
  have resolved := solveGroupOps_eq 0 fit
  rw [zero_mod, zero_mul] at resolved
  simp only [zero_add] at resolved
  set locations := counts.mapIdx fun turn count =>
    (range count).map (locationOf groupSize turn count) with areLocations
  have isLocation {place taskCtr location : Nat}
      (here : locationAt locations place taskCtr = some location) :
      ∃ count, counts[place]? = some count ∧ count ≤ groupSize ∧ taskCtr < count ∧
        location = locationOf groupSize place count taskCtr := by
    obtain ⟨group, isGroup, isTask⟩ := bind_eq_some_iff.mp here
    rw [areLocations, getElem?_mapIdx] at isGroup
    obtain ⟨count, isCount, rfl⟩ := map_eq_some_iff.mp isGroup
    rw [getElem?_map] at isTask
    obtain ⟨number, isNumber, rfl⟩ := map_eq_some_iff.mp isTask
    obtain ⟨below, rfl⟩ := List.getElem?_eq_some_iff.mp isNumber
    rw [length_range] at below
    exact ⟨count, isCount, fit count (mem_of_getElem? isCount), below, by
      rw [getElem_range]⟩
  refine ⟨locations, resolved, ?_, ?_, ?_⟩
  · ext place : 1
    rw [getElem?_map, areLocations, getElem?_mapIdx]
    cases counts[place]? with
    | none => rfl
    | some count => simp only [map_some, length_map, length_range]
  · intro place taskCtr location here
    obtain ⟨count, -, fits, isTask, rfl⟩ := isLocation here
    exact locationOf_lt place fits isTask
  · intro place taskCtr place' taskCtr' location here there
    obtain ⟨count, isCount, fits, isTask, rfl⟩ := isLocation here
    obtain ⟨count', isCount', fits', isTask', same⟩ := isLocation there
    have sameHalf : place % 2 = place' % 2 := by
      unfold locationOf at same
      rcases mod_two_eq_zero_or_one place with half | half <;>
        rcases mod_two_eq_zero_or_one place' with half' | half' <;>
        rw [half, half'] at same ⊢ <;> omega
    by_cases samePlace : place = place'
    · subst samePlace
      obtain rfl : count = count' := Option.some.inj (isCount.symm.trans isCount')
      exact .inl ⟨rfl, add_left_cancel same⟩
    · exact .inr ⟨samePlace, sameHalf⟩

/-- Tasks with one, two and three variants. -/
def threeTasks : List PrimaryTask :=
  [⟨[], [], [⟨0, [], []⟩]⟩, ⟨[], [], [⟨1, [], []⟩, ⟨2, [], []⟩]⟩,
    ⟨[], [], [⟨3, [], []⟩, ⟨4, [], []⟩, ⟨5, [], []⟩]⟩]

variable {prog : Program}

/-! ### The list -/

/-- The list has every DMA task, none twice, and the indexes follow its order. -/
structure Listed (prog : Program) (tasks : List DmaTask) (indexOf : Nat → Nat) : Prop where
  nodup : tasks.Nodup
  sorted : (tasks.filterMap DmaTask.nnDma?).Pairwise fun a b => indexOf a < indexOf b
  complete : ∀ dma task, prog.InList dma task → .nnDma dma ∈ tasks

variable {fetch : DmaTask}

section

variable {tasks : List DmaTask} {indexOf : Nat → Nat}

section

variable (listed : Listed prog tasks indexOf)
include listed

section

variable {first second : Nat} (isFirst : .nnDma first ∈ tasks) (isSecond : .nnDma second ∈ tasks)
include isFirst isSecond

theorem Listed.precedes (less : indexOf first < indexOf second) :
    Precedes tasks (.nnDma first) (.nnDma second) := by
  have different : DmaTask.nnDma first ≠ .nnDma second := by
    rintro ⟨⟩
    exact lt_irrefl _ less
  refine (precedes_or_precedes isFirst isSecond different).resolve_right fun precedes => ?_
  have greater := (precedes.filterMap (show DmaTask.nnDma? (.nnDma second) = some second from rfl)
    (show DmaTask.nnDma? (.nnDma first) = some first from rfl)).rel listed.sorted
  exact lt_asymm less greater

theorem Listed.eq_or_precedes (less : indexOf first ≤ indexOf second) :
    DmaTask.nnDma first = .nnDma second ∨ Precedes tasks (.nnDma first) (.nnDma second) := by
  rcases lt_or_eq_of_le less with strictly | same
  · exact .inr (listed.precedes isFirst isSecond strictly)
  · by_cases equal : DmaTask.nnDma first = .nnDma second
    · exact .inl equal
    · refine .inr ((precedes_or_precedes isFirst isSecond equal).resolve_right fun precedes => ?_)
      have greater := (precedes.filterMap
        (show DmaTask.nnDma? (.nnDma second) = some second from rfl)
        (show DmaTask.nnDma? (.nnDma first) = some first from rfl)).rel listed.sorted
      exact lt_irrefl _ (same ▸ greater)

end

theorem Listed.insertAfter {anchor : DmaTask} (member : anchor ∈ tasks)
    (fresh : fetch ∉ tasks) (isFetch : fetch.nnDma? = none) :
    Listed prog (insertAfter anchor fetch tasks) indexOf where
  nodup := nodup_insertAfter listed.nodup fresh member
  sorted := by
    rw [filterMap_insertAfter isFetch]
    exact listed.sorted
  complete dma task inList := (mem_insertAfter member).mpr (.inl (listed.complete dma task inList))

theorem Listed.cons (fresh : fetch ∉ tasks) (isFetch : fetch.nnDma? = none) :
    Listed prog (fetch :: tasks) indexOf where
  nodup := nodup_cons.mpr ⟨fresh, listed.nodup⟩
  sorted := by
    rw [filterMap_cons_none isFetch]
    exact listed.sorted
  complete dma task inList := mem_cons_of_mem _ (listed.complete dma task inList)

end

theorem Listed.reindexList {list : DmaList} (listed : Listed prog list.tasks indexOf) :
    Listed prog list.reindexList.tasks list.reindexList.indexOf where
  nodup := listed.nodup
  sorted := by
    have places : list.tasks.Pairwise fun a b => list.tasks.idxOf a < list.tasks.idxOf b := by
      rw [pairwise_iff_getElem]
      intro first second insideFirst insideSecond less
      rw [listed.nodup.idxOf_getElem, listed.nodup.idxOf_getElem]
      exact less
    have present : list.tasks.Pairwise fun a b => a ∈ list.tasks ∧ b ∈ list.tasks :=
      pairwise_of_forall_mem_list fun a inFirst b inSecond => ⟨inFirst, inSecond⟩
    refine List.Pairwise.filterMap DmaTask.nnDma? ?_ (places.and present)
    rintro first second ⟨less, isFirst, isSecond⟩ one isOne other isOther
    cases first with
    | fetchTask => cases isOne
    | nnDma dma =>
      cases second with
      | fetchTask => cases isOther
      | nnDma dma' =>
        cases isOne
        cases isOther
        unfold DmaList.reindexList
        dsimp only
        rw [if_pos isFirst, if_pos isSecond]
        exact less
  complete := listed.complete

end

theorem getNextDma_precedes {tasks : List DmaTask}
    (found : getNextDma fetch tasks = some dma) : Precedes tasks fetch (.nnDma dma) := by
  obtain ⟨task, isTask, isDma⟩ := exists_of_findSome?_eq_some found
  cases task with
  | fetchTask => cases isDma
  | nnDma other =>
    cases isDma
    have sub : (tasks.dropWhile (· ≠ fetch)).Sublist tasks := (dropWhile_suffix _).sublist
    cases shape : tasks.dropWhile (· ≠ fetch) with
    | nil =>
      rw [shape] at isTask
      exact absurd isTask not_mem_nil
    | cons head rest =>
      have isHead : head = fetch := by
        have stops := head?_dropWhile_not (fun task => decide (task ≠ fetch)) tasks
        rw [shape] at stops
        simpa using stops
      rw [shape] at isTask sub
      rw [isHead] at sub
      exact (precedes_cons isTask).sublist sub

/-! ### Groups of one tile -/

/-- What the list does for the groups of one type and tile. -/
structure Protected (prog : Program) (taskType : TaskType) (tileIdx : Nat)
    (groups : List ExecutionGroupOp) (tasks : List DmaTask) : Prop where
  fetched : ∀ number, .fetchTask taskType tileIdx number ∈ tasks ↔ number < groups.length
  ordered : ∀ number, number + 1 < groups.length →
    Precedes tasks (.fetchTask taskType tileIdx number) (.fetchTask taskType tileIdx (number + 1))
  released : ∀ number group, groups[number]? = some group → number + 2 < groups.length →
    ∃ dma, prog.RunsAfter group dma ∧
      Precedes tasks (.nnDma dma) (.fetchTask taskType tileIdx (number + 2))
  inTime : ∀ number group, groups[number]? = some group → 0 < number ∨ 1 < groups.length →
    ∃ dma, prog.RunsBefore group dma ∧
      Precedes tasks (.fetchTask taskType tileIdx number) (.nnDma dma)
  first : groups ≠ [] → ∀ dma, .nnDma dma ∈ tasks →
    Precedes tasks (.fetchTask taskType tileIdx 0) (.nnDma dma)

section

variable {taskType : TaskType} {tileIdx : Nat} {groups : List ExecutionGroupOp}
  {tasks longer : List DmaTask}

theorem protected_nil (absent : ∀ number, .fetchTask taskType tileIdx number ∉ tasks) :
    Protected prog taskType tileIdx [] tasks :=
  ⟨fun number => iff_of_false (absent number) (not_lt_zero _),
    fun _ absurdity => absurd absurdity (not_lt_zero _), nofun, nofun,
    fun absurdity => absurd rfl absurdity⟩

/-- More fetch tasks, for other groups, change nothing. -/
theorem Protected.sublist (isProtected : Protected prog taskType tileIdx groups tasks)
    (sub : tasks.Sublist longer) (sameDmas : ∀ dma, .nnDma dma ∈ longer → .nnDma dma ∈ tasks)
    (sameFetches : ∀ number, .fetchTask taskType tileIdx number ∈ longer →
      .fetchTask taskType tileIdx number ∈ tasks) :
    Protected prog taskType tileIdx groups longer where
  fetched number := (show _ ↔ _ from ⟨sameFetches number, fun member => sub.subset member⟩).trans
    (isProtected.fetched number)
  ordered number inside := (isProtected.ordered number inside).sublist sub
  released number group found inside := by
    obtain ⟨dma, runs, precedes⟩ := isProtected.released number group found inside
    exact ⟨dma, runs, precedes.sublist sub⟩
  inTime number group found several := by
    obtain ⟨dma, runs, precedes⟩ := isProtected.inTime number group found several
    exact ⟨dma, runs, precedes.sublist sub⟩
  first nonempty dma member := (isProtected.first nonempty dma (sameDmas dma member)).sublist sub

end

/-- Where the loop over the groups of a tile is. -/
structure TravelingInv (prog : Program) (taskType : TaskType) (tileIdx : Nat)
    (indexOf : Nat → Nat) (groups : List ExecutionGroupOp) (state : Traveling) : Prop where
  listed : Listed prog state.tasks indexOf
  guarded : Protected prog taskType tileIdx groups state.tasks
  length : groups.length = state.parentNumber + 1
  parent : groups[state.parentNumber]? = some state.parentGroup
  grandParent : ∀ group, state.grandParentGroup = some group →
    ∃ number, state.parentNumber = number + 1 ∧ groups[number]? = some group
  orphan : state.grandParentGroup = none → state.parentNumber = 0

section

variable {taskType : TaskType} {tileIdx : Nat} {indexOf : Nat → Nat}
  {groups : List ExecutionGroupOp} {state after : Traveling}

theorem mem_of_inList (listed : Listed prog state.tasks indexOf)
    (runs : prog.RunsBefore group dma ∨ prog.RunsAfter group dma) :
    .nnDma dma ∈ state.tasks := by
  rcases runs with ⟨_, _, _, _, task, inList, _⟩ | ⟨_, _, _, _, task, inList, _⟩
  · exact listed.complete dma task inList
  · exact listed.complete dma task inList

section

variable (inv : TravelingInv prog taskType tileIdx indexOf groups state)
include inv

/-- Where a fetch task is inserted: behind the fetch task before, and behind a DMA task that waits
for the group two before, or else behind one that the group before waits for. -/
theorem TravelingInv.insertion {parentFetchDma insertionDma : Nat}
    (next : getNextDma (.fetchTask taskType tileIdx state.parentNumber) state.tasks =
      some parentFetchDma) (found : prog.findInsertionDma indexOf parentFetchDma state.parentGroup
      state.grandParentGroup = some insertionDma) :
    .nnDma insertionDma ∈ state.tasks ∧
      Precedes state.tasks (.fetchTask taskType tileIdx state.parentNumber)
        (.nnDma insertionDma) ∧
      (state.parentNumber = 0 → prog.RunsBefore state.parentGroup insertionDma) ∧
      ∀ number group, state.parentNumber = number + 1 → groups[number]? = some group →
        ∃ dma, prog.RunsAfter group dma ∧
          (DmaTask.nnDma dma = .nnDma insertionDma ∨
            Precedes state.tasks (.nnDma dma) (.nnDma insertionDma)) := by
  have follows := getNextDma_precedes next
  cases isGrandParent : state.grandParentGroup with
  | none =>
    rw [isGrandParent] at found
    have zero := inv.orphan isGrandParent
    have runs := prog.runsBefore_of_findLastDma found
    have member := mem_of_inList inv.listed (.inl runs)
    have nonempty : groups ≠ [] := by
      rintro rfl
      have length := inv.length
      cases length
    refine ⟨member, ?_, fun _ => runs, fun number group isNumber => ?_⟩
    · rw [zero]
      exact inv.guarded.first nonempty insertionDma member
    · rw [zero] at isNumber
      cases isNumber
  | some group =>
    rw [isGrandParent] at found
    obtain ⟨first, isFirst, chosen⟩ := Option.map_eq_some_iff.mp found
    obtain ⟨place, isPlace, isGroup⟩ := inv.grandParent group isGrandParent
    have runs := prog.runsAfter_of_findFirstDma isFirst
    have firstMember := mem_of_inList inv.listed (.inr runs)
    have parentMember := follows.mem_right
    -- The later one of the two DMA tasks is at or behind each of them.
    have behind : .nnDma insertionDma ∈ state.tasks ∧ indexOf first ≤ indexOf insertionDma ∧
        indexOf parentFetchDma ≤ indexOf insertionDma := by
      split at chosen
      · rename_i less
        exact chosen ▸ ⟨parentMember, less.le, le_refl _⟩
      · rename_i notLess
        exact chosen ▸ ⟨firstMember, le_refl _, not_lt.mp notLess⟩
    obtain ⟨member, atFirst, atParent⟩ := behind
    refine ⟨member, ?_, fun zero => ?_, fun number other isNumber isOther => ?_⟩
    · rcases inv.listed.eq_or_precedes parentMember member atParent with same | precedes
      · exact same ▸ follows
      · exact follows.trans precedes inv.listed.nodup
    · rw [isPlace] at zero
      cases zero
    · obtain rfl : place = number := succ_injective (isPlace.symm.trans isNumber)
      obtain rfl : group = other := Option.some.inj (isGroup.symm.trans isOther)
      exact ⟨first, runs, inv.listed.eq_or_precedes firstMember member atFirst⟩

theorem TravelingInv.step {travelingGroup : ExecutionGroupOp}
    (stepped : prog.fetchGroup taskType tileIdx indexOf state travelingGroup = some after) :
    TravelingInv prog taskType tileIdx indexOf (groups ++ [travelingGroup]) after ∧
      (∀ task, task ∈ after.tasks ↔ task ∈ state.tasks ∨
        task = .fetchTask taskType tileIdx (state.parentNumber + 1)) ∧
      state.tasks.Sublist after.tasks := by
  unfold Program.fetchGroup at stepped
  simp only [Option.bind_eq_bind, Option.bind_eq_some_iff] at stepped
  obtain ⟨parentFetchDma, next, insertionDma, found, lastDma, isLast, stepped⟩ := stepped
  split at stepped
  · cases stepped
  · rename_i late
    cases stepped
    obtain ⟨member, isParent, before, released⟩ := inv.insertion next found
    have length := inv.length
    have fresh : .fetchTask taskType tileIdx (state.parentNumber + 1) ∉ state.tasks := by
      rw [inv.guarded.fetched, length]
      exact lt_irrefl _
    have sub := sublist_insertAfter
      (DmaTask.fetchTask taskType tileIdx (state.parentNumber + 1)) member
    have mem_iff : ∀ task, task ∈ insertAfter (.nnDma insertionDma)
        (.fetchTask taskType tileIdx (state.parentNumber + 1)) state.tasks ↔
          task ∈ state.tasks ∨ task = .fetchTask taskType tileIdx (state.parentNumber + 1) :=
      fun task => mem_insertAfter member
    have runsLast := prog.runsBefore_of_findLastDma isLast
    have lastMember := mem_of_inList inv.listed (.inl runsLast)
    have behind := insertAfter_precedes
      (.fetchTask taskType tileIdx (state.parentNumber + 1)) inv.listed.nodup member
      (inv.listed.precedes member lastMember (not_le.mp late))
    have lengths : (groups ++ [travelingGroup]).length = state.parentNumber + 2 := by
      rw [length_append, length]
      rfl
    refine ⟨⟨inv.listed.insertAfter member fresh rfl, ⟨?_, ?_, ?_, ?_, ?_⟩, ?_, ?_, ?_, nofun⟩,
      mem_iff, sub⟩
    · intro number
      rw [mem_iff, inv.guarded.fetched, length, lengths]
      simp only [DmaTask.fetchTask.injEq, true_and]
      omega
    · intro number inside
      rw [lengths] at inside
      rcases lt_or_eq_of_le (le_of_lt_succ (lt_of_succ_lt_succ inside)) with
        less | rfl
      · exact (inv.guarded.ordered number (by omega)).sublist sub
      · exact precedes_insertAfter inv.listed.nodup member (.inr isParent)
    · intro number group isGroup inside
      rw [lengths] at inside
      rw [getElem?_append_left (by omega)] at isGroup
      by_cases last : state.parentNumber = number + 1
      · obtain ⟨dma, runs, atOrBefore⟩ := released number group last isGroup
        refine ⟨dma, runs, ?_⟩
        rw [last]
        exact precedes_insertAfter inv.listed.nodup member atOrBefore
      · obtain ⟨dma, runs, precedes⟩ := inv.guarded.released number group isGroup (by omega)
        exact ⟨dma, runs, precedes.sublist sub⟩
    · intro number group isGroup _
      by_cases last : number = state.parentNumber + 1
      · rw [last, ← length, getElem?_concat_length, Option.some.injEq] at isGroup
        rw [last, ← isGroup]
        exact ⟨lastDma, runsLast, behind⟩
      · have inside := (List.getElem?_eq_some_iff.mp isGroup).1
        rw [lengths] at inside
        rw [getElem?_append_left (by omega)] at isGroup
        by_cases several : 0 < number ∨ 1 < groups.length
        · obtain ⟨dma, runs, precedes⟩ := inv.guarded.inTime number group isGroup several
          exact ⟨dma, runs, precedes.sublist sub⟩
        · -- The second group is put behind a DMA task that the first one waits for.
          obtain ⟨rfl, zero⟩ : number = 0 ∧ state.parentNumber = 0 := by omega
          have same : state.parentGroup = group := by
            have isParentGroup := inv.parent
            rw [zero, isGroup, Option.some.injEq] at isParentGroup
            exact isParentGroup.symm
          rw [zero] at isParent
          exact ⟨insertionDma, same ▸ before zero, isParent.sublist sub⟩
    · intro _ dma isDma
      have nonempty : groups ≠ [] := by
        rintro rfl
        cases length
      refine (inv.guarded.first nonempty dma ?_).sublist sub
      exact ((mem_iff _).mp isDma).resolve_right nofun
    · rw [lengths]
    · rw [← length, getElem?_concat_length]
    · rintro group ⟨⟩
      refine ⟨state.parentNumber, rfl, ?_⟩
      rw [getElem?_append_left (by omega)]
      exact inv.parent

theorem TravelingInv.run {rest : List ExecutionGroupOp}
    (ran : rest.foldlM (prog.fetchGroup taskType tileIdx indexOf) state = some after) :
    TravelingInv prog taskType tileIdx indexOf (groups ++ rest) after ∧
      state.tasks.Sublist after.tasks ∧
      ∀ task ∈ after.tasks, task ∈ state.tasks ∨
        ∃ number, task = .fetchTask taskType tileIdx number := by
  induction rest generalizing state groups with
  | nil =>
    cases ran
    rw [append_nil]
    exact ⟨inv, List.Sublist.refl _, fun task member => .inl member⟩
  | cons group rest ih =>
    rw [foldlM_cons] at ran
    obtain ⟨middle, stepped, ran⟩ := Option.bind_eq_some_iff.mp ran
    obtain ⟨middleInv, mem_iff, sub⟩ := inv.step stepped
    obtain ⟨afterInv, afterSub, afterMem⟩ := ih middleInv ran
    rw [append_assoc, singleton_append] at afterInv
    refine ⟨afterInv, sub.trans afterSub, fun task member => ?_⟩
    rcases afterMem task member with inMiddle | isFetch
    · exact ((mem_iff task).mp inMiddle).imp_right fun same => ⟨_, same⟩
    · exact .inr isFetch

end

end

/-! ### All tiles -/

/-- What holds between two tiles: of the groups whose turn it was the metadata is protected, and of
the others nothing is fetched. -/
structure Managed (prog : Program) (groups : TaskType → Nat → List ExecutionGroupOp)
    (managed : TaskType → Nat → Prop) (list : DmaList) : Prop where
  listed : Listed prog list.tasks list.indexOf
  guarded : ∀ taskType tileIdx, managed taskType tileIdx →
    Protected prog taskType tileIdx (groups taskType tileIdx) list.tasks
  absent : ∀ taskType tileIdx, ¬ managed taskType tileIdx →
    ∀ number, .fetchTask taskType tileIdx number ∉ list.tasks

section

variable {groups : TaskType → Nat → List ExecutionGroupOp} {managed : TaskType → Nat → Prop}
  {list after : DmaList} {taskType : TaskType} {tileIdx : Nat}

theorem Listed.fetchTile (listed : Listed prog list.tasks list.indexOf)
    (absent : ∀ number, .fetchTask taskType tileIdx number ∉ list.tasks)
    {firstGroup : ExecutionGroupOp} {rest : List ExecutionGroupOp} {final : Traveling}
    (ran : rest.foldlM (prog.fetchGroup taskType tileIdx list.indexOf)
      ⟨.fetchTask taskType tileIdx 0 :: list.tasks, 0, firstGroup, none⟩ = some final) :
    Listed prog final.tasks list.indexOf ∧
      Protected prog taskType tileIdx (firstGroup :: rest) final.tasks ∧
      list.tasks.Sublist final.tasks ∧
      ∀ task ∈ final.tasks, task ∈ list.tasks ∨
        ∃ number, task = .fetchTask taskType tileIdx number := by
  have start : TravelingInv prog taskType tileIdx list.indexOf [firstGroup]
      ⟨.fetchTask taskType tileIdx 0 :: list.tasks, 0, firstGroup, none⟩ := by
    refine ⟨listed.cons (absent 0) rfl, ⟨fun number => ?_, ?_, ?_, ?_, ?_⟩, rfl, rfl, nofun,
      fun _ => rfl⟩
    · rw [mem_cons, or_iff_left (absent number), DmaTask.fetchTask.injEq,
        length_singleton, lt_one_iff]
      exact ⟨fun same => same.2.2, fun zero => ⟨rfl, rfl, zero⟩⟩
    · intro number inside
      cases lt_of_succ_lt_succ inside
    · intro number group _ inside
      exact absurd inside (by rw [length_singleton]; omega)
    · intro number group found several
      have inside := (List.getElem?_eq_some_iff.mp found).1
      rw [length_singleton] at inside several
      omega
    · intro _ dma member
      exact precedes_cons ((mem_cons.mp member).resolve_left nofun)
  obtain ⟨inv, sub, mem⟩ := start.run ran
  refine ⟨inv.listed, inv.guarded, (sublist_cons_self _ _).trans sub, fun task member => ?_⟩
  rcases mem task member with inStart | isFetch
  · exact (mem_cons.mp inStart).symm.imp_right fun same => ⟨0, same⟩
  · exact .inr isFetch

theorem Managed.addTileFetchTasks (isManaged : Managed prog groups managed list)
    (unmanaged : ¬ managed taskType tileIdx)
    (added : prog.addTileFetchTasks taskType tileIdx list (groups taskType tileIdx) = some after) :
    Managed prog groups (fun type tile => managed type tile ∨
      type = taskType ∧ tile = tileIdx) after := by
  cases shape : groups taskType tileIdx with
  | nil =>
    rw [shape] at added
    cases added
    refine ⟨isManaged.listed, ?_, fun type tile apart => isManaged.absent type tile
      fun isDone => apart (.inl isDone)⟩
    rintro type tile (isDone | ⟨rfl, rfl⟩)
    · exact isManaged.guarded type tile isDone
    · rw [shape]
      exact protected_nil (isManaged.absent type tile unmanaged)
  | cons firstGroup rest =>
    rw [shape, Program.addTileFetchTasks] at added
    split at added
    · cases added
    · obtain ⟨final, ran, same⟩ := Option.bind_eq_some_iff.mp added
      cases same
      obtain ⟨listed, isProtected, sub, mem⟩ :=
        isManaged.listed.fetchTile (isManaged.absent taskType tileIdx unmanaged) ran
      have others : ∀ type tile, ¬ (type = taskType ∧ tile = tileIdx) → ∀ number,
          .fetchTask type tile number ∈ final.tasks → .fetchTask type tile number ∈ list.tasks := by
        intro type tile apart number member
        refine (mem _ member).resolve_right ?_
        rintro ⟨other, same⟩
        cases same
        exact apart ⟨rfl, rfl⟩
      have reindexed : Listed prog
          (DmaList.reindexList { list with tasks := final.tasks }).tasks _ :=
        Listed.reindexList listed
      refine ⟨reindexed, ?_, ?_⟩
      · intro type tile isDone
        by_cases here : type = taskType ∧ tile = tileIdx
        · obtain ⟨rfl, rfl⟩ := here
          rw [shape]
          exact isProtected
        · refine (isManaged.guarded type tile (isDone.resolve_right here)).sublist sub
            (fun dma member => (mem _ member).resolve_right ?_) (others type tile here)
          rintro ⟨number, same⟩
          cases same
      · intro type tile apart number member
        rw [not_or] at apart
        exact isManaged.absent type tile apart.1 number (others type tile apart.2 number member)

theorem Managed.addFetchTasks (isManaged : Managed prog groups managed list)
    (unmanaged : ∀ tileIdx, ¬ managed taskType tileIdx)
    (added : prog.addFetchTasks groups list taskType = some after) :
    Managed prog groups (fun type tile => managed type tile ∨
      type = taskType ∧ tile < prog.tilesCount) after := by
  have each : ∀ count list', (List.range count).foldlM (fun list tileIdx =>
      prog.addTileFetchTasks taskType tileIdx list (groups taskType tileIdx)) list =
        some list' →
      Managed prog groups (fun type tile => managed type tile ∨
        type = taskType ∧ tile < count) list' := by
    intro count
    induction count with
    | zero =>
      intro list' ran
      cases ran
      refine ⟨isManaged.listed, fun type tile isDone => ?_, fun type tile apart => ?_⟩
      · exact isManaged.guarded type tile
          (isDone.resolve_right fun absurdity => not_lt_zero _ absurdity.2)
      · exact isManaged.absent type tile fun isDone => apart (.inl isDone)
    | succ count ih =>
      intro list' ran
      rw [range_succ, foldlM_append] at ran
      obtain ⟨middle, before, last⟩ := Option.bind_eq_some_iff.mp ran
      rw [foldlM_cons] at last
      obtain ⟨final, last, same⟩ := Option.bind_eq_some_iff.mp last
      cases same
      have stepped := (ih middle before).addTileFetchTasks (by
        rintro (isDone | ⟨-, absurdity⟩)
        · exact unmanaged count isDone
        · exact lt_irrefl _ absurdity) last
      have same : ∀ type tile, (managed type tile ∨ type = taskType ∧ tile < count + 1) ↔
          (managed type tile ∨ type = taskType ∧ tile < count) ∨
            type = taskType ∧ tile = count := by
        intro type tile
        rw [Nat.lt_succ_iff_lt_or_eq, and_or_left]
        exact or_assoc.symm
      refine ⟨stepped.listed, fun type tile isDone => ?_, fun type tile apart => ?_⟩
      · exact stepped.guarded type tile ((same type tile).mp isDone)
      · exact stepped.absent type tile fun isDone => apart ((same type tile).mpr isDone)
  exact each prog.tilesCount after added

end

theorem initialList_managed (prog : Program) (groups : TaskType → Nat → List ExecutionGroupOp) :
    Managed prog groups (fun _ _ => False) prog.initialList := by
  have images : ∀ dmas : List Nat, (dmas.map DmaTask.nnDma).filterMap DmaTask.nnDma? = dmas := by
    intro dmas
    induction dmas with
    | nil => rfl
    | cons dma rest ih =>
      rw [map_cons, filterMap_cons, ih]
      rfl
  have injective : Function.Injective DmaTask.nnDma := fun _ _ same => DmaTask.nnDma.inj same
  have listed : Listed prog prog.initialList.tasks id := by
    refine ⟨(nodup_range.filter _).map injective, ?_, fun dma task inList => ?_⟩
    · show (((List.filter _ _).map DmaTask.nnDma).filterMap DmaTask.nnDma?).Pairwise _
      rw [images]
      exact List.Pairwise.filter _ pairwise_lt_range
    · obtain ⟨isTask, isList, isTile⟩ := inList
      refine mem_map_of_mem (List.mem_filter.mpr ⟨mem_range.mpr ?_, ?_⟩)
      · exact (List.getElem?_eq_some_iff.mp isTask).1
      · rw [isTask, Option.any_some, decide_eq_true_eq]
        exact ⟨isList, isTile⟩
  refine ⟨Listed.reindexList listed, fun _ _ => False.elim,
    fun taskType tileIdx _ number member => ?_⟩
  obtain ⟨dma, -, same⟩ := mem_map.mp member
  cases same

/-! ### The pass -/

/-- In the list that the pass gives, the metadata of all groups is protected. -/
theorem workloadManagement_protected (prog : Program)
    {groups : TaskType → Nat → List ExecutionGroupOp} {tasks : List DmaTask}
    (grouped : prog.groupExecutionOps = some groups)
    (managed : prog.workloadManagement groups = some tasks) :
    tasks.Nodup ∧ ∀ taskType, ∀ tileIdx < prog.tilesCount,
      (groups taskType tileIdx).flatMap ExecutionGroupOp.tasks = prog.tasks taskType tileIdx ∧
        Protected prog taskType tileIdx (groups taskType tileIdx) tasks := by
  unfold Program.workloadManagement at managed
  simp only [Option.bind_eq_bind, Option.bind_eq_some_iff, foldlM_cons, foldlM_nil,
    Option.pure_def, Option.some.injEq] at managed
  obtain ⟨final, ⟨middle, first, last, second, rfl⟩, rfl⟩ := managed
  have invariants := (initialList_managed prog groups).addFetchTasks (fun _ => id) first
  have shaves := invariants.addFetchTasks (by rintro tileIdx (⟨⟨⟩⟩ | ⟨⟨⟩, -⟩)) second
  refine ⟨shaves.listed.nodup, fun taskType tileIdx inside => ⟨?_, shaves.guarded _ _ ?_⟩⟩
  · unfold Program.groupExecutionOps at grouped
    split at grouped
    · rename_i finished
      cases grouped
      have isSome : (prog.groupExecOps taskType tileIdx).isSome := by
        cases taskType with
        | dpuInvariant => exact (finished tileIdx inside).1
        | actKernelRange => exact (finished tileIdx inside).2
      obtain ⟨found, isFound⟩ := Option.isSome_iff_exists.mp isSome
      dsimp only
      rw [isFound]
      exact groupTasks_tasks isFound
    · cases grouped
  · cases taskType with
    | dpuInvariant => exact .inl (.inr ⟨rfl, inside⟩)
    | actKernelRange => exact .inr ⟨rfl, inside⟩

/-- Three groups on one tile, as two invariants have too many variants for one group. DMA tasks of
the list stand between them. -/
def threeGroups : Program where
  tilesCount := 1
  barriers := [[], [0], [1], [2], [3]]
  dmas := [⟨0, 0, [], [0]⟩, ⟨0, 0, [1], [2]⟩, ⟨0, 0, [3], [4]⟩]
  tasks taskType tileIdx :=
    if taskType = .dpuInvariant ∧ tileIdx = 0 then
      [⟨[0], [1], List.replicate 40 ⟨0, [], []⟩⟩, ⟨[2], [3], List.replicate 40 ⟨0, [], []⟩⟩,
        ⟨[4], [], List.replicate 40 ⟨0, [], []⟩⟩]
    else []
  dependencies_before := by decide

theorem threeGroups_protected :
    Protected threeGroups .dpuInvariant 0 ((threeGroups.groupExecOps .dpuInvariant 0).getD [])
      [.fetchTask .dpuInvariant 0 0, .nnDma 0, .fetchTask .dpuInvariant 0 1, .nnDma 1,
        .fetchTask .dpuInvariant 0 2, .nnDma 2] := by
  have grouped : threeGroups.groupExecutionOps =
      some fun taskType tileIdx => (threeGroups.groupExecOps taskType tileIdx).getD [] :=
    if_pos (by decide)
  exact ((workloadManagement_protected threeGroups grouped (by decide)).2 .dpuInvariant 0
    Nat.one_pos).2

/-- One group, whose first task waits for a DMA task of another list. -/
def otherPort : Program where
  tilesCount := 1
  barriers := [[], [0]]
  dmas := [⟨0, 0, [1], []⟩, ⟨1, 0, [], [0]⟩]
  tasks taskType tileIdx :=
    if taskType = .dpuInvariant ∧ tileIdx = 0 then [⟨[0], [1], [⟨0, [], []⟩]⟩] else []
  dependencies_before := by decide

/-- No DMA task of the list makes the first task of the only group wait for its fetch task. -/
theorem otherPort_not_inTime : ∃ groups tasks group,
    otherPort.groupExecutionOps = some groups ∧
      otherPort.workloadManagement groups = some tasks ∧
      groups .dpuInvariant 0 = [group] ∧
      ¬ ∃ dma, otherPort.RunsBefore group dma ∧
        Precedes tasks (.fetchTask .dpuInvariant 0 0) (.nnDma dma) := by
  refine ⟨fun taskType tileIdx => (otherPort.groupExecOps taskType tileIdx).getD [],
    [.fetchTask .dpuInvariant 0 0, .nnDma 0],
    ⟨[⟨[0], [1], [⟨0, [], []⟩]⟩], [0], [1]⟩, if_pos (by decide), by decide, by decide, ?_⟩
  rintro ⟨dma, ⟨waited, isWaited, produced, path, task, ⟨isTask, isList, isTile⟩, updates⟩, -⟩
  cases mem_singleton.mp isWaited
  -- The wait barrier depends on no other one.
  have same : produced = 0 := by
    rcases Relation.ReflTransGen.cases_head path with rfl | ⟨dependency, depends, -⟩
    · rfl
    · exact absurd depends not_mem_nil
  rw [same] at updates
  match dma with
  | 0 =>
    cases isTask
    exact absurd updates not_mem_nil
  | 1 =>
    cases isTask
    cases isTile
  | _ + 2 => cases isTask

end NpuPlugin.WorkloadManagement
