/-
This file models the pass that decides at which barriers the tasks of each FIFO are enqueued, with
its searches among the dependencies of barriers and its check of later consumers.
-/

import Mathlib.Algebra.Ring.Nat
import Mathlib.Data.List.MinMax
import Mathlib.Data.List.Sort
import Mathlib.Order.Bounds.Basic
import NpuPlugin.Library.Loop

namespace NpuPlugin.AddEnqueueOps

open List Memo

/-! ### Barriers and their dependencies -/

/-- `VPUMI40XX::ConfigureBarrierOp`, named by its index (the virtual id). -/
structure ConfigureBarrierOp where
  id : Nat
  dependencies : List Nat
  consumerCount : Option Nat

/-- The barriers of a task. A task that is not executable, such as one that fetches descriptors, has
none. -/
structure ExecutableTask where
  waitBarriers : List Nat
  updateBarriers : List Nat
deriving DecidableEq, Repr

variable (barriers : List ConfigureBarrierOp)

def getDependencies (barr : Nat) : List Nat :=
  (barriers[barr]?.map ConfigureBarrierOp.dependencies).getD []

/-- The users of a barrier that are barriers. -/
def barrierUsers (val : Nat) : List Nat :=
  (List.range barriers.length).filter fun barr => val ∈ getDependencies barriers barr

def getMaxBarrier (vals : List Nat) : Option Nat := vals.max?

def getMinBarrier (vals : List Nat) : Option Nat := vals.min?

/-! ### Lowest common ancestors -/

/-- Each call visits another barrier, so that they nest no deeper than there are barriers. -/
def dfs : Nat → Nat → List Nat → List Nat
  | 0, _, visited => visited
  | depth + 1, val, visited =>
    (barrierUsers barriers val).foldl
      (fun visited barr => if barr ∈ visited then visited else dfs depth barr visited)
      (visited ++ [val])

def visitedFrom (val : Nat) : List Nat := dfs barriers (barriers.length + 1) val []

def intersection (lhs rhs : Nat) : List Nat :=
  (visitedFrom barriers lhs).filter fun lhsIt => lhsIt ∈ visitedFrom barriers rhs

/-- each barr who's deps is not in the intersection is an LCA -/
def lowest (vals : List Nat) : List Nat :=
  vals.filter fun val => (getDependencies barriers val).countP (· ∈ vals) = 0

def lcaOfTwo (lhs rhs : Nat) : List Nat :=
  if lhs = rhs then [lhs]
  else if rhs < lhs then lowest barriers (intersection barriers rhs lhs)
  else lowest barriers (intersection barriers lhs rhs)

def lcaWith (lhs : List Nat) (rhs : Nat) : List Nat :=
  lhs.flatMap fun val => lcaOfTwo barriers val rhs

def lca : List Nat → List Nat
  | [] => []
  | [val] => [val]
  | first :: second :: rest => rest.foldl (lcaWith barriers) (lcaOfTwo barriers first second)

/-! ### Previous usages -/

/-- The last barrier before an index with a physical id. -/
def getPreviousUsage (startIdx pid : Nat) : Option Nat :=
  (List.range startIdx).reverse.find? fun idx =>
    (barriers[idx]?.map ConfigureBarrierOp.id) == some pid

def getPreviousUsages (barrs : List Nat) : List Nat :=
  barrs.filterMap fun barr =>
    match barriers[barr]? with
    | some barrOp => getPreviousUsage barriers barr barrOp.id
    | none => none

/-! ### Dependencies of the enqueue barrier -/

/-- `barDep` is put in the queue, unless it is too early or was explored. -/
def explore (minVid : Nat) (found : List Nat × List Nat) (barDep : Nat) : List Nat × List Nat :=
  if barDep < minVid ∨ barDep ∈ found.2 then found
  else (found.1 ++ [barDep], found.2 ++ [barDep])

/-- The search goes up the dependency chain. A barrier is in the queue at most once, which bounds
the turns. -/
def dependsOnNone (taskBars : List Nat) (minVid : Nat) :
    Nat → List Nat × List Nat → Bool
  | _, ([], _) => true
  | 0, _ => true
  | turns + 1, (bar :: queue, explored) =>
    if bar ∈ taskBars then false
    else dependsOnNone taskBars minVid turns
      ((getDependencies barriers bar).foldl (explore minVid) (queue, explored))

def verifyEnqueueBarrierHasNoTopoDepOnBarrs (enqueueBar : Nat) (taskBars : List Nat) : Bool :=
  match taskBars.min? with
  | none => true
  | some minVid =>
    if enqueueBar < minVid then true
    else dependsOnNone barriers taskBars minVid (barriers.length + 1) ([enqueueBar], [enqueueBar])

/-! ### Programs -/

/-- A tile has a list of the DMAs from DDR and one of those from CMX. -/
scoped instance dmaLists : NeZero 2 := ⟨Nat.succ_ne_zero 1⟩

/-- Where a `FetchTaskOp` is in the lists of the DMAs. -/
structure FetchTask where
  tileIdx : Nat
  listIdx : Fin 2
  index : Nat

inductive PrimaryTask
  /-- An invariant and the number of its variants, which have its barriers. -/
  | DPUInvariant (fetchTask : Option FetchTask) (invariant : ExecutableTask) (variants : Nat)
  | ActKernelRange (fetchTask : Option FetchTask) (invocations : List ExecutableTask)

/-- The lists of a tile that `MappedInferenceOp` has the heads of. -/
structure Tile where
  invariants : List PrimaryTask
  ranges : List PrimaryTask
  dmas : Fin 2 → List ExecutableTask

structure Program where
  barriers : List ConfigureBarrierOp
  tiles : List Tile

/-- `VPURegMapped::TaskType`, of the tasks that are enqueued. -/
inductive TaskType
  | DMA
  | ActKernelInvocation
  | DPUVariant
deriving DecidableEq, Repr

inductive Fifo
  | dpu (tileIdx : Nat)
  | shave (tileIdx : Nat)
  | dma (tileIdx : Nat) (listIdx : Fin 2)
deriving DecidableEq, Repr

def Fifo.taskType : Fifo → TaskType
  | .dpu _ => .DPUVariant
  | .shave _ => .ActKernelInvocation
  | .dma _ _ => .DMA

/-- `start` and `stop` are the first and the last task in the FIFO. -/
structure EnqueueOp where
  index : Nat
  barrier : Nat
  fifo : Fifo
  start : Nat
  stop : Nat
deriving DecidableEq, Repr

/-- What is thrown. `undefined` stands for the end of an empty range that is dereferenced. -/
inductive Failure
  /-- `WlmRollbackException` -/
  | earlyEnqueue (enqTarget : Nat)
  | invalidEnqueueBarrier (enqueueTarget : Nat)
  | invalidBarrierIndex (barrierIdx barrierCount : Nat)
  | barrierNotConsumed (enqBarIdx : Nat) (remaining : Int)
  | consumerCountNotDecremented (barrierIdx : Nat) (remaining : Int)
  /-- `VPUX_THROW` -/
  | noFetchTask
  | noLowestCommonAncestor
  | undefined
deriving DecidableEq, Repr

namespace PrimaryTask

def fetchTask : PrimaryTask → Option FetchTask
  | .DPUInvariant fetchTask _ _ => fetchTask
  | .ActKernelRange fetchTask _ => fetchTask

/-- The tasks of the secondary type, with the barriers they are run with. -/
def secondaries : PrimaryTask → List ExecutableTask
  | .DPUInvariant _ invariant variants => List.replicate variants invariant
  | .ActKernelRange _ invocations => invocations

def getBarrieredOp : PrimaryTask → Option ExecutableTask
  | .DPUInvariant _ invariant _ => some invariant
  | .ActKernelRange _ invocations => invocations.getLast?

def executables : PrimaryTask → List ExecutableTask
  | .DPUInvariant _ invariant _ => [invariant]
  | .ActKernelRange _ invocations => invocations

end PrimaryTask

namespace Program

variable (prog : Program)

def invariants (tileIdx : Nat) : List PrimaryTask :=
  (prog.tiles[tileIdx]?.map Tile.invariants).getD []

def ranges (tileIdx : Nat) : List PrimaryTask := (prog.tiles[tileIdx]?.map Tile.ranges).getD []

def dmas (tileIdx : Nat) (listIdx : Fin 2) : List ExecutableTask :=
  (prog.tiles[tileIdx]?.map fun tile => tile.dmas listIdx).getD []

def tasks : Fifo → List ExecutableTask
  | .dpu tileIdx => (prog.invariants tileIdx).flatMap PrimaryTask.secondaries
  | .shave tileIdx => (prog.ranges tileIdx).flatMap PrimaryTask.secondaries
  | .dma tileIdx listIdx => prog.dmas tileIdx listIdx

/-- The FIFOs in the order in which they are handled. -/
def fifos : List Fifo :=
  let tileIdxs := List.range prog.tiles.length
  tileIdxs.map Fifo.dpu ++ tileIdxs.map Fifo.shave ++
    tileIdxs.flatMap fun tileIdx => [Fifo.dma tileIdx 0, Fifo.dma tileIdx 1]

def executableTasks : List ExecutableTask :=
  prog.tiles.flatMap fun tile =>
    tile.invariants.flatMap PrimaryTask.executables ++
      tile.ranges.flatMap PrimaryTask.executables ++ tile.dmas 0 ++ tile.dmas 1

def getClosestProductionBarriers (fetchTask : FetchTask) : List Nat :=
  (((prog.dmas fetchTask.tileIdx fetchTask.listIdx).drop fetchTask.index).find?
    fun task => !task.updateBarriers.isEmpty).elim [] ExecutableTask.updateBarriers

def verifyEnqueueOpForFirstTaskInFifo (barrieredOp : ExecutableTask) (enqTarget : Nat) :
    Except Failure Unit :=
  match getMaxBarrier (getPreviousUsages prog.barriers barrieredOp.waitBarriers) with
  | none => .ok ()
  | some maxBarrierUsage =>
    if enqTarget ≤ maxBarrierUsage then .ok ()
    else
      let users := prog.executableTasks.filter fun task => maxBarrierUsage ∈ task.waitBarriers
      match users.mapM fun task => getMinBarrier task.updateBarriers with
      | none => .error .undefined
      | some maxBarrierUpdateBarriers =>
        match getMinBarrier maxBarrierUpdateBarriers with
        | none => .error .undefined
        | some minBarrierUpdateBarrier =>
          if enqTarget < minBarrierUpdateBarrier ∧
              enqTarget ∉ getDependencies prog.barriers minBarrierUpdateBarrier then
            .error (.earlyEnqueue enqTarget)
          else .ok ()

def verifyIfFirst (isFirstEnqueue : Bool) (barrieredOp : ExecutableTask) (enqTarget : Nat) :
    Except Failure Unit :=
  if isFirstEnqueue then prog.verifyEnqueueOpForFirstTaskInFifo barrieredOp enqTarget else .ok ()

end Program

/-! ### The enqueue ops of a FIFO -/

/-- The enqueue ops of a FIFO, the last one of which may still get more tasks. -/
structure Enqueues where
  counter : Nat
  enquOps : List EnqueueOp
  localPreviousEnqu : Option EnqueueOp
deriving DecidableEq, Repr

namespace Enqueues

variable (enqueues : Enqueues)

def all : List EnqueueOp := enqueues.enquOps ++ enqueues.localPreviousEnqu.toList

/-- The target is not in front of the barrier of the previous enqueue op. -/
def raised (enqueueTarget : Nat) : Nat :=
  match enqueues.localPreviousEnqu with
  | some previousEnqu => max previousEnqu.barrier enqueueTarget
  | none => enqueueTarget

/-- The previous enqueue op has the same barrier. -/
def isExtended (enqueueTarget : Nat) : Bool :=
  match enqueues.localPreviousEnqu with
  | some previousEnqu => previousEnqu.barrier == enqueueTarget
  | none => false

def extend (stop : Nat) : Enqueues :=
  { enqueues with
    localPreviousEnqu := enqueues.localPreviousEnqu.map fun previousEnqu =>
      { previousEnqu with stop } }

def create (fifo : Fifo) (enqueueTarget start stop : Nat) : Enqueues where
  counter := enqueues.counter + 1
  enquOps := enqueues.all
  localPreviousEnqu := some ⟨enqueues.counter, enqueueTarget, fifo, start, stop⟩

def enqueue (fifo : Fifo) (enqueueTarget start stop : Nat) : Enqueues :=
  if enqueues.isExtended enqueueTarget then enqueues.extend stop
  else enqueues.create fifo enqueueTarget start stop

end Enqueues

/-! ### DPU and SHAVE tasks -/

structure PrimaryState where
  enqueues : Enqueues
  previousFetchTask : FetchTask
  isFirstEnqueue : Bool
  position : Nat

/-- The barriers that an enqueue barrier of a primary task has to come after. -/
def primaryUsages (prog : Program) (fetchTask : FetchTask) (barrieredOp : ExecutableTask) :
    List Nat :=
  getPreviousUsages prog.barriers (barrieredOp.updateBarriers ++ barrieredOp.waitBarriers) ++
    (prog.getClosestProductionBarriers fetchTask).head?.toList

def addEnqu (prog : Program) (fifo : Fifo) (state : PrimaryState) (primary : PrimaryTask) :
    Except Failure PrimaryState :=
  if primary.secondaries.isEmpty then .error .undefined
  else
    match primary.getBarrieredOp with
    | none => .error .undefined
    | some barrieredOp =>
      let previousFetchTask := primary.fetchTask.getD state.previousFetchTask
      match getMinBarrier (lca prog.barriers
          (primaryUsages prog previousFetchTask barrieredOp)) with
      | none => .error .noLowestCommonAncestor
      | some lowestTarget => do
        prog.verifyIfFirst state.isFirstEnqueue barrieredOp lowestTarget
        let enqueueTarget := state.enqueues.raised lowestTarget
        if verifyEnqueueBarrierHasNoTopoDepOnBarrs prog.barriers enqueueTarget
            (barrieredOp.updateBarriers ++ barrieredOp.waitBarriers) then
          return {
            enqueues := state.enqueues.enqueue fifo enqueueTarget state.position
              (state.position + primary.secondaries.length - 1)
            previousFetchTask
            isFirstEnqueue := false
            position := state.position + primary.secondaries.length }
        else throw (.invalidEnqueueBarrier enqueueTarget)

/-- The enqueue ops that a FIFO gets, and the last of its DMAs in front of them. -/
structure FifoEnqueues where
  counter : Nat
  enquOps : List EnqueueOp
  lastDmaWithNoEnqueue : Option Nat
deriving DecidableEq, Repr

def noEnqueues (counter : Nat) : Enqueues := ⟨counter, [], none⟩

def addEnqus (prog : Program) (fifo : Fifo) (counter : Nat) :
    List PrimaryTask → Except Failure FifoEnqueues
  | [] => .ok ⟨counter, [], none⟩
  | start :: rest =>
    match start.fetchTask with
    | none => .error .noFetchTask
    | some fetchTask => do
      let state ← (start :: rest).foldlM (addEnqu prog fifo)
        ⟨noEnqueues counter, fetchTask, true, 0⟩
      return ⟨state.enqueues.counter, state.enqueues.all, none⟩

/-! ### DMA tasks -/

def DMA_OUTSTANDING_TRANSACTIONS : Nat := 64

structure DmaState where
  enqueues : Enqueues
  outstandingEnqueuedDmas : List (Option ExecutableTask)
  outstandingEnquOpsCounter : Nat
  lastDmaWithNoEnqueue : Option Nat
  position : Nat

/-- A DMA goes behind the ones before, which are enqueued or not. -/
def DmaState.append (state : DmaState) : DmaState :=
  match state.enqueues.localPreviousEnqu with
  | some _ => { state with
      enqueues := state.enqueues.extend state.position, position := state.position + 1 }
  | none => { state with
      lastDmaWithNoEnqueue := some state.position, position := state.position + 1 }

/-- The barriers that an enqueue barrier of a DMA has to come after. -/
def dmaUsages (prog : Program) (state : DmaState) (dmaTask : ExecutableTask) : List Nat :=
  getPreviousUsages prog.barriers (dmaTask.waitBarriers ++ dmaTask.updateBarriers) ++
    ((state.outstandingEnqueuedDmas[state.outstandingEnquOpsCounter]?).join.elim []
      ExecutableTask.updateBarriers)

/-- The DMA gets an enqueue op or goes to the previous one. Only the DMAs that begin an enqueue op
are among the outstanding ones. -/
def DmaState.enqueue (state : DmaState) (fifo : Fifo) (dmaTask : ExecutableTask)
    (enqueueTarget : Nat) : DmaState :=
  if state.enqueues.isExtended enqueueTarget then { state with
    enqueues := state.enqueues.extend state.position, position := state.position + 1 }
  else { state with
    enqueues := state.enqueues.create fifo enqueueTarget state.position state.position
    outstandingEnqueuedDmas :=
      state.outstandingEnqueuedDmas.set state.outstandingEnquOpsCounter (some dmaTask)
    outstandingEnquOpsCounter :=
      (state.outstandingEnquOpsCounter + 1) % DMA_OUTSTANDING_TRANSACTIONS
    position := state.position + 1 }

def addDmaEnqu (prog : Program) (fifo : Fifo) (state : DmaState) (dmaTask : ExecutableTask) :
    Except Failure DmaState :=
  if dmaTask.updateBarriers.isEmpty && dmaTask.waitBarriers.isEmpty then .ok state.append
  else
    match getMinBarrier (lca prog.barriers (dmaUsages prog state dmaTask)) with
    | none => .ok state.append
    | some lowestTarget =>
      let enqueueTarget := state.enqueues.raised lowestTarget
      if verifyEnqueueBarrierHasNoTopoDepOnBarrs prog.barriers enqueueTarget
          (dmaTask.waitBarriers ++ dmaTask.updateBarriers) then
        .ok (state.enqueue fifo dmaTask enqueueTarget)
      else .error (.invalidEnqueueBarrier enqueueTarget)

def dmaStart (counter : Nat) : DmaState where
  enqueues := noEnqueues counter
  outstandingEnqueuedDmas := List.replicate DMA_OUTSTANDING_TRANSACTIONS none
  outstandingEnquOpsCounter := 0
  lastDmaWithNoEnqueue := none
  position := 0

def addDmaEnqus (prog : Program) (fifo : Fifo) (counter : Nat) (dmas : List ExecutableTask) :
    Except Failure FifoEnqueues := do
  let state ← dmas.foldlM (addDmaEnqu prog fifo) (dmaStart counter)
  return ⟨state.enqueues.counter, state.enqueues.all, state.lastDmaWithNoEnqueue⟩

/-! ### The check of the enqueue ops -/

/-- The counters of the consumers that a barrier still has, -1 for barriers that have none. -/
def barrierConsumerCounter (barriers : List ConfigureBarrierOp) : List Int :=
  barriers.map fun barrier => (barrier.consumerCount.map Int.ofNat).getD (-1)

/-- A DMA without an enqueue op consumes a barrier. -/
def consumeInitially (counter : List Int) (barrierIdx : Nat) : Except Failure (List Int) :=
  match counter[barrierIdx]? with
  | none => .error (.invalidBarrierIndex barrierIdx counter.length)
  | some remaining => .ok (counter.set barrierIdx (remaining - 1))

def consume (counter : List Int) (barrierIdx : Nat) : Except Failure (List Int) :=
  match counter[barrierIdx]? with
  | none => .error (.invalidBarrierIndex barrierIdx counter.length)
  | some remaining =>
    if remaining ≤ 0 then .error (.consumerCountNotDecremented barrierIdx remaining)
    else .ok (counter.set barrierIdx (remaining - 1))

def Program.range (prog : Program) (enquOp : EnqueueOp) : List ExecutableTask :=
  ((prog.tasks enquOp.fifo).drop enquOp.start).take (enquOp.stop + 1 - enquOp.start)

def verifyEnqueueOp (prog : Program) (counter : List Int) (enquOp : EnqueueOp) :
    Except Failure (List Int) :=
  match counter[enquOp.barrier]? with
  | none => .error .undefined
  | some remaining =>
    if remaining ≠ 0 then .error (.barrierNotConsumed enquOp.barrier remaining)
    else ((prog.range enquOp).flatMap ExecutableTask.waitBarriers).foldlM consume counter

def Program.initialTasks (prog : Program) (initial : Fifo × Nat) : List ExecutableTask :=
  (prog.tasks initial.1).take (initial.2 + 1)

def verifyEnqueueBarrierIsNotBlockedByFutureTask (prog : Program) (enquOps : List EnqueueOp)
    (lastDmaWithNoEnqueue : List (Fifo × Nat)) : Except Failure (List Int) := do
  let counter ← ((lastDmaWithNoEnqueue.flatMap prog.initialTasks).flatMap
    ExecutableTask.waitBarriers).foldlM consumeInitially (barrierConsumerCounter prog.barriers)
  enquOps.foldlM (verifyEnqueueOp prog) counter

/-! ### The pass -/

/-- All enqueue ops in the order of their index, and the last DMAs in front of them. -/
structure Schedule where
  counter : Nat
  enquOps : List EnqueueOp
  lastDmaWithNoEnqueue : List (Fifo × Nat)
deriving DecidableEq, Repr

def addFifo (prog : Program) (counter : Nat) : Fifo → Except Failure FifoEnqueues
  | .dpu tileIdx => addEnqus prog (.dpu tileIdx) counter (prog.invariants tileIdx)
  | .shave tileIdx => addEnqus prog (.shave tileIdx) counter (prog.ranges tileIdx)
  | .dma tileIdx listIdx =>
    addDmaEnqus prog (.dma tileIdx listIdx) counter (prog.dmas tileIdx listIdx)

def schedule (prog : Program) (schedule : Schedule) (fifo : Fifo) : Except Failure Schedule := do
  let added ← addFifo prog schedule.counter fifo
  return {
    counter := added.counter
    enquOps := schedule.enquOps ++ added.enquOps
    lastDmaWithNoEnqueue := schedule.lastDmaWithNoEnqueue ++
      added.lastDmaWithNoEnqueue.toList.map fun last => (fifo, last) }

/-- The enqueue ops of a barrier and a type by their index. -/
def bucket (enquOps : List EnqueueOp) (barrier : Nat) (taskType : TaskType) : List EnqueueOp :=
  (enquOps.filter fun enqu => enqu.barrier == barrier && enqu.fifo.taskType ==
    taskType).insertionSort
    fun lhs rhs => lhs.index ≤ rhs.index

/-- The order in which the hash map with the enqueue ops of a barrier has their types. -/
structure BucketOrder where
  types : List TaskType
  nodup : types.Nodup
  complete : ∀ taskType, taskType ∈ types

/-- The enqueue ops of each barrier are moved behind the ones before. -/
def sortEnquOps (buckets : BucketOrder) (barrierCount : Nat) (enquOps : List EnqueueOp) :
    List EnqueueOp :=
  enquOps.filter (fun enqu => barrierCount ≤ enqu.barrier) ++
    (List.range barrierCount).flatMap fun barrier => buckets.types.flatMap (bucket enquOps barrier)

def reindexEnqueueOps (enquOps : List EnqueueOp) : List EnqueueOp :=
  enquOps.mapIdx fun index enqu => { enqu with index }

/-- The enqueue ops in their final order, and the last DMAs in front of them. -/
def addEnqueueOps (buckets : BucketOrder) (prog : Program) :
    Except Failure (List EnqueueOp × List (Fifo × Nat)) := do
  let added ← prog.fifos.foldlM (schedule prog) ⟨0, [], []⟩
  let enquOps := reindexEnqueueOps (sortEnquOps buckets prog.barriers.length added.enquOps)
  let _ ← verifyEnqueueBarrierIsNotBlockedByFutureTask prog enquOps added.lastDmaWithNoEnqueue
  return (enquOps, added.lastDmaWithNoEnqueue)

/-! ### Ancestors -/

variable {barriers : List ConfigureBarrierOp}

/-! ### Dependencies -/

/-- A barrier is another one, or depends on it directly or not. -/
def DependsOn (barriers : List ConfigureBarrierOp) : Nat → Nat → Prop :=
  Relation.ReflTransGen fun later earlier => earlier ∈ getDependencies barriers later

variable {barr val lhs rhs : Nat} {vals : List Nat}

theorem mem_barrierUsers (user : barr ∈ barrierUsers barriers val) :
    val ∈ getDependencies barriers barr :=
  of_decide_eq_true (mem_filter.mp user).2

theorem dependsOn_of_mem_dfs {depth : Nat} {visited : List Nat}
    (found : barr ∈ dfs barriers depth val visited) :
    barr ∈ visited ∨ DependsOn barriers barr val := by
  induction depth generalizing val visited with
  | zero => exact .inl found
  | succ depth ih =>
    have users : ∀ (users : List Nat) (reached : List Nat),
        (∀ user ∈ users, val ∈ getDependencies barriers user) →
        barr ∈ users.foldl (fun visited barr =>
          if barr ∈ visited then visited else dfs barriers depth barr visited) reached →
        barr ∈ reached ∨ DependsOn barriers barr val := by
      intro users
      induction users with
      | nil => exact fun _ _ inReached => .inl inReached
      | cons user rest restHypothesis =>
        intro reached depends inFold
        rw [foldl_cons] at inFold
        have others := restHypothesis _ (forall_mem_cons.mp depends).2 inFold
        refine others.elim (fun inStep => ?_) .inr
        split at inStep
        · exact .inl inStep
        · exact (ih inStep).imp id fun further => further.tail (depends user mem_cons_self)
    have reached := users (barrierUsers barriers val) (visited ++ [val])
      (fun _ user => mem_barrierUsers user) found
    refine reached.elim (fun inReached => ?_) .inr
    rcases mem_append.mp inReached with before | here
    · exact .inl before
    · exact .inr (mem_singleton.mp here ▸ .refl)

theorem dependsOn_of_visited (found : barr ∈ visitedFrom barriers val) :
    DependsOn barriers barr val :=
  (dependsOn_of_mem_dfs found).resolve_left not_mem_nil

theorem dependsOn_of_mem_intersection (found : barr ∈ intersection barriers lhs rhs) :
    DependsOn barriers barr lhs ∧ DependsOn barriers barr rhs :=
  have both := mem_filter.mp found
  ⟨dependsOn_of_visited both.1, dependsOn_of_visited (of_decide_eq_true both.2)⟩

theorem dependsOn_of_mem_lcaOfTwo (found : barr ∈ lcaOfTwo barriers lhs rhs) :
    DependsOn barriers barr lhs ∧ DependsOn barriers barr rhs := by
  unfold lcaOfTwo at found
  split at found
  · next same =>
    rw [mem_singleton.mp found, ← same]
    exact ⟨.refl, .refl⟩
  · split at found
    · exact (dependsOn_of_mem_intersection (mem_filter.mp found).1).symm
    · exact dependsOn_of_mem_intersection (mem_filter.mp found).1

theorem dependsOn_of_mem_lca (found : barr ∈ lca barriers vals) (mem : val ∈ vals) :
    DependsOn barriers barr val := by
  have all : ∀ (rest : List Nat) (lcas known : List Nat),
      (∀ barr ∈ lcas, ∀ val ∈ known, DependsOn barriers barr val) →
      ∀ barr ∈ rest.foldl (lcaWith barriers) lcas, ∀ val ∈ known ++ rest,
        DependsOn barriers barr val := by
    intro rest
    induction rest with
    | nil =>
      intro lcas known depends barr inLcas val inKnown
      exact depends barr inLcas val ((append_nil known) ▸ inKnown)
    | cons rhs rest ih =>
      intro lcas known depends barr inFold val inAll
      refine ih (lcaWith barriers lcas rhs) (known ++ [rhs]) ?_ barr inFold val ?_
      · intro common inCommon other inKnown
        obtain ⟨lhs, inLcas, inTwo⟩ := mem_flatMap.mp inCommon
        obtain ⟨onLhs, onRhs⟩ := dependsOn_of_mem_lcaOfTwo inTwo
        rcases mem_append.mp inKnown with before | here
        · exact onLhs.trans (depends lhs inLcas other before)
        · exact mem_singleton.mp here ▸ onRhs
      · rw [append_assoc]
        exact inAll
  match vals, found, mem with
  | [only], found, mem =>
    rw [mem_singleton.mp found, mem_singleton.mp mem]
    exact .refl
  | first :: second :: rest, found, mem =>
    refine all rest (lcaOfTwo barriers first second) [first, second] ?_ barr found val mem
    intro common inTwo other inPair
    obtain ⟨onFirst, onSecond⟩ := dependsOn_of_mem_lcaOfTwo inTwo
    rcases mem_pair.mp inPair with rfl | rfl
    · exact onFirst
    · exact onSecond

theorem dependsOn_of_getMinBarrier (lowest : getMinBarrier (lca barriers vals) = some barr)
    (mem : val ∈ vals) : DependsOn barriers barr val :=
  dependsOn_of_mem_lca (min?_mem lowest) mem

/-! ### Previous usages -/

def HasId (barriers : List ConfigureBarrierOp) (barr pid : Nat) : Prop :=
  barriers[barr]?.map ConfigureBarrierOp.id = some pid

/-- The last barrier before another one with the same physical id. -/
def PreviousUsage (barriers : List ConfigureBarrierOp) (barr usage : Nat) : Prop :=
  ∃ pid, HasId barriers barr pid ∧ HasId barriers usage pid ∧ usage < barr ∧
    ∀ other, usage < other → other < barr → ¬ HasId barriers other pid

theorem getPreviousUsage_eq_some_iff {startIdx pid usage : Nat} :
    getPreviousUsage barriers startIdx pid = some usage ↔
      HasId barriers usage pid ∧ usage < startIdx ∧
        ∀ other, usage < other → other < startIdx → ¬ HasId barriers other pid := by
  unfold getPreviousUsage
  induction startIdx with
  | zero => exact ⟨nofun, fun found => absurd found.2.1 (Nat.not_lt_zero _)⟩
  | succ idx ih =>
    rw [range_succ, reverse_append, reverse_singleton, singleton_append, find?_cons]
    split
    · next here =>
      have hasId := eq_of_beq here
      constructor
      · rintro ⟨⟩
        exact ⟨hasId, Nat.lt_succ_self _, fun other above below => absurd above (by omega)⟩
      · rintro ⟨_, below, last⟩
        rcases Nat.lt_succ_iff_lt_or_eq.mp below with before | same
        · exact absurd hasId (last _ before (Nat.lt_succ_self _))
        · rw [same]
    · next notHere =>
      have hasNot : ¬ HasId barriers idx pid := fun hasId =>
        ne_true_of_eq_false notHere (beq_iff_eq.mpr hasId)
      rw [ih]
      refine and_congr_right fun hasId => ⟨?_, ?_⟩
      · rintro ⟨below, last⟩
        refine ⟨Nat.lt_succ_of_lt below, fun other above inside => ?_⟩
        rcases Nat.lt_succ_iff_lt_or_eq.mp inside with before | same
        · exact last other above before
        · exact same ▸ hasNot
      · rintro ⟨below, last⟩
        refine ⟨lt_of_le_of_ne (Nat.le_of_lt_succ below) ?_, fun other above inside =>
          last other above (Nat.lt_succ_of_lt inside)⟩
        rintro rfl
        exact hasNot hasId

theorem mem_getPreviousUsages {barrs : List Nat} {usage : Nat} :
    usage ∈ getPreviousUsages barriers barrs ↔
      ∃ barr ∈ barrs, PreviousUsage barriers barr usage := by
  unfold getPreviousUsages
  rw [mem_filterMap]
  refine exists_congr fun barr => and_congr_right fun _ => ?_
  unfold PreviousUsage HasId
  cases barriers[barr]? with
  | none => exact ⟨nofun, fun ⟨_, hasId, _⟩ => absurd hasId nofun⟩
  | some barrOp =>
    rw [getPreviousUsage_eq_some_iff]
    constructor
    · exact fun found => ⟨barrOp.id, rfl, found⟩
    · rintro ⟨pid, same, found⟩
      cases same
      exact found

/-- The barrier comes after the previous usages of the barriers of a task. -/
def Reprogrammed (prog : Program) (barrier : Nat) (task : ExecutableTask) : Prop :=
  ∀ barr ∈ task.waitBarriers ++ task.updateBarriers, ∀ usage,
    PreviousUsage prog.barriers barr usage → DependsOn prog.barriers barrier usage

theorem reprogrammed_iff_usages {prog : Program} {barrier : Nat} {task : ExecutableTask} :
    Reprogrammed prog barrier task ↔
      ∀ usage ∈ getPreviousUsages prog.barriers (task.waitBarriers ++ task.updateBarriers),
        DependsOn prog.barriers barrier usage := by
  constructor
  · intro reprogrammed usage mem
    obtain ⟨barr, inTask, previous⟩ := mem_getPreviousUsages.mp mem
    exact reprogrammed barr inTask usage previous
  · intro depends barr inTask usage previous
    exact depends usage (mem_getPreviousUsages.mpr ⟨barr, inTask, previous⟩)

/-! ### The cache -/

/-- The results for two barriers, by their positions. -/
abbrev LcaCache := Nat × Nat → Option (List Nat)

section

variable (barriers : List ConfigureBarrierOp)

/-- The barriers are swapped when the second one comes first, but their positions are not. -/
def lcaOfTwoCached (lhs rhs : Nat) (cache : LcaCache) : List Nat × LcaCache :=
  if lhs = rhs then ([lhs], cache)
  else
    let swapped := if rhs < lhs then (rhs, lhs) else (lhs, rhs)
    match cache (lhs, rhs) with
    | some lcas => (lcas, cache)
    | none =>
      let lcas := lowest barriers (intersection barriers swapped.1 swapped.2)
      (lcas, Function.update cache (lhs, rhs) (some lcas))

def lcaWithCached (lhs : List Nat) (rhs : Nat) (cache : LcaCache) : List Nat × LcaCache :=
  lhs.foldl (fun found val =>
    let (lcas, cache) := lcaOfTwoCached barriers val rhs found.2
    (found.1 ++ lcas, cache)) ([], cache)

def lcaCached (barrierVals : List Nat) (cache : LcaCache) : List Nat × LcaCache :=
  match barrierVals with
  | [] => ([], cache)
  | [val] => ([val], cache)
  | first :: second :: rest =>
    rest.foldl (fun found rhs => lcaWithCached barriers found.1 rhs found.2)
      (lcaOfTwoCached barriers first second cache)

/-- The cache after some searches. -/
def cacheAfter (queries : List (List Nat)) : LcaCache :=
  queries.foldl (fun cache barrierVals => (lcaCached barriers barrierVals cache).2) fun _ => none

end

variable {barriers : List ConfigureBarrierOp}

/-- What the cache has is what the search finds. -/
def LcaCache.Valid (barriers : List ConfigureBarrierOp) : LcaCache → Prop :=
  Agrees (fun pair => lcaOfTwo barriers pair.1 pair.2) fun pair => pair.1 ≠ pair.2

theorem lcaOfTwoCached_computes (lhs rhs : Nat) :
    Computes (LcaCache.Valid barriers) (lcaOfTwoCached barriers lhs rhs)
      (lcaOfTwo barriers lhs rhs) := by
  by_cases same : lhs = rhs
  · have run : lcaOfTwoCached barriers lhs rhs = fun cache => ([lhs], cache) :=
      funext fun _ => if_pos same
    rw [run, lcaOfTwo, if_pos same]
    exact computes_pure _
  · have swapped : lowest barriers (intersection barriers (if rhs < lhs then (rhs, lhs)
        else (lhs, rhs)).1 (if rhs < lhs then (rhs, lhs) else (lhs, rhs)).2) =
          lcaOfTwo barriers lhs rhs := by
      rw [lcaOfTwo, if_neg same]
      split <;> rfl
    refine @computes_lookup _ _ _ (fun pair : Nat × Nat => lcaOfTwo barriers pair.1 pair.2)
      (fun pair => pair.1 ≠ pair.2) (lhs, rhs) same _ (fun stored => ?_) fun stored => ?_
    · unfold lcaOfTwoCached
      rw [if_neg same, stored]
    · unfold lcaOfTwoCached
      rw [if_neg same, stored]
      dsimp only
      rw [swapped]

theorem lcaWithCached_computes (lhs : List Nat) (rhs : Nat) :
    Computes (LcaCache.Valid barriers) (lcaWithCached barriers lhs rhs)
      (lcaWith barriers lhs rhs) := by
  have each : ∀ (found : List Nat) (val : Nat), Computes (LcaCache.Valid barriers)
      (fun cache => (found ++ (lcaOfTwoCached barriers val rhs cache).1,
        (lcaOfTwoCached barriers val rhs cache).2)) (found ++ lcaOfTwo barriers val rhs) := by
    intro found val cache valid
    obtain ⟨same, kept⟩ := lcaOfTwoCached_computes val rhs cache valid
    exact ⟨congrArg (found ++ ·) same, kept⟩
  have all := Computes.foldl each lhs (computes_pure [])
  rwa [foldl_append_eq_append, nil_append] at all

theorem lcaCached_computes (barrierVals : List Nat) :
    Computes (LcaCache.Valid barriers) (lcaCached barriers barrierVals)
      (lca barriers barrierVals) := by
  match barrierVals with
  | [] => exact computes_pure _
  | [_] => exact computes_pure _
  | first :: second :: rest =>
    exact (lcaOfTwoCached_computes first second).foldl lcaWithCached_computes rest

theorem valid_cacheAfter (queries : List (List Nat)) :
    LcaCache.Valid barriers (cacheAfter barriers queries) := by
  unfold cacheAfter
  induction queries using reverseRecOn with
  | nil => exact agrees_empty _ _
  | append_singleton queries barrierVals ih =>
    rw [foldl_append]
    exact (lcaCached_computes barrierVals _ ih).2

/-! ### The search visits everything -/

/-- The barriers are numbered in a topological order. -/
def Topological (barriers : List ConfigureBarrierOp) : Prop :=
  ∀ barr, ∀ dependency ∈ getDependencies barriers barr, dependency < barr

variable {barr val : Nat}

theorem lt_of_dependency {dependency : Nat} (mem : dependency ∈ getDependencies barriers barr) :
    barr < barriers.length := by
  by_contra outside
  rw [getDependencies, getElem?_eq_none (not_lt.mp outside)] at mem
  exact not_mem_nil mem

theorem mem_barrierUsers_iff :
    barr ∈ barrierUsers barriers val ↔ val ∈ getDependencies barriers barr :=
  ⟨mem_barrierUsers, fun depends => mem_filter.mpr
    ⟨mem_range.mpr (lt_of_dependency depends), decide_eq_true depends⟩⟩

section

variable (topological : Topological barriers)
include topological

theorem Topological.le_of_dependsOn {later earlier : Nat}
    (depends : DependsOn barriers later earlier) : earlier ≤ later := by
  induction depends with
  | refl => exact le_rfl
  | tail _ step ih => exact (topological _ _ step).le.trans ih

/-- Whatever was reached and not seen before has all its users reached. -/
def UsersReached (barriers : List ConfigureBarrierOp) (seen reached : List Nat) : Prop :=
  ∀ barr ∈ reached, barr ∈ seen ∨ ∀ user ∈ barrierUsers barriers barr, user ∈ reached

/-- A search that may nest deep enough reaches the users of everything that it visits. -/
theorem dfs_reaches {depth val : Nat} {visited : List Nat} (deep : barriers.length < depth + val)
    (pos : 0 < depth) :
    visited ⊆ dfs barriers depth val visited ∧ val ∈ dfs barriers depth val visited ∧
      UsersReached barriers visited (dfs barriers depth val visited) := by
  induction depth generalizing val visited with
  | zero => exact absurd pos (Nat.lt_irrefl 0)
  | succ depth ih =>
    -- the users that are left, and what was reached by then
    have users : ∀ (left reached : List Nat), left ⊆ barrierUsers barriers val →
        UsersReached barriers (visited ++ [val]) reached →
        let after := left.foldl (fun visited barr =>
          if barr ∈ visited then visited else dfs barriers depth barr visited) reached
        reached ⊆ after ∧ left ⊆ after ∧ UsersReached barriers (visited ++ [val]) after := by
      intro left
      induction left with
      | nil => exact fun reached _ closed => ⟨List.Subset.refl _, nil_subset _, closed⟩
      | cons user left leftHypothesis =>
        intro reached inUsers closed
        have later := topological _ _ (mem_barrierUsers (inUsers mem_cons_self))
        have inside := lt_of_dependency (mem_barrierUsers (inUsers mem_cons_self))
        have step : reached ⊆ (if user ∈ reached then reached
              else dfs barriers depth user reached) ∧
            user ∈ (if user ∈ reached then reached else dfs barriers depth user reached) ∧
            UsersReached barriers (visited ++ [val])
              (if user ∈ reached then reached else dfs barriers depth user reached) := by
          split
          · next known => exact ⟨List.Subset.refl _, known, closed⟩
          · obtain ⟨grows, found, closedHere⟩ := @ih user reached (by omega)
              (by omega)
            refine ⟨grows, found, fun barr mem => ?_⟩
            rcases closedHere barr mem with before | all
            · exact (closed barr before).imp_right fun all other inUsersOf =>
                grows (all other inUsersOf)
            · exact .inr all
        obtain ⟨growsHere, foundHere, closedHere⟩ := step
        obtain ⟨grows, found, closedAfter⟩ := leftHypothesis _
          (fun _ mem => inUsers (mem_cons_of_mem _ mem)) closedHere
        exact ⟨fun _ mem => grows (growsHere mem),
          cons_subset.mpr ⟨grows foundHere, found⟩, closedAfter⟩
    obtain ⟨grows, found, closed⟩ := users (barrierUsers barriers val) (visited ++ [val])
      (List.Subset.refl _) fun _ mem => .inl mem
    refine ⟨fun _ mem => grows (mem_append_left _ mem),
      grows (mem_append_right _ (mem_singleton_self val)), fun barr mem => ?_⟩
    rcases closed barr mem with seen | all
    · refine (mem_append.mp seen).imp_right fun here => ?_
      rw [mem_singleton.mp here]
      exact fun user inUsers => found inUsers
    · exact .inr all

theorem mem_visitedFrom : barr ∈ visitedFrom barriers val ↔ DependsOn barriers barr val := by
  refine ⟨dependsOn_of_visited, fun depends => ?_⟩
  obtain ⟨-, here, closed⟩ := @dfs_reaches _ topological (barriers.length + 1) val [] (by omega)
    (Nat.succ_pos _)
  induction depends using Relation.ReflTransGen.head_induction_on with
  | refl => exact here
  | head step _ ih =>
    exact (closed _ ih).resolve_left not_mem_nil _
      (mem_barrierUsers_iff.mpr step)

end

/-! ### Common descendants -/

/-- The barriers that are, or depend on, each of some barriers. -/
def commonDescendants (barriers : List ConfigureBarrierOp) (vals : List Nat) : Set Nat :=
  {barr | ∀ val ∈ vals, DependsOn barriers barr val}

/-- The barriers in question are those that are, or depend on, one of some barriers. -/
def Generates (barriers : List ConfigureBarrierOp) (lcas : List Nat) (common : Set Nat) : Prop :=
  ∀ barr, barr ∈ common ↔ ∃ val ∈ lcas, DependsOn barriers barr val

variable {rhs barr : Nat} {vals : List Nat}

section

variable (topological : Topological barriers)
include topological

theorem mem_intersection {lhs : Nat} :
    barr ∈ intersection barriers lhs rhs ↔
      DependsOn barriers barr lhs ∧ DependsOn barriers barr rhs := by
  rw [intersection, mem_filter, decide_eq_true_eq, mem_visitedFrom topological,
    mem_visitedFrom topological]

/-- Below each barrier of a list there is one none of whose dependencies are in the list. -/
theorem exists_lowest (mem : barr ∈ vals) :
    ∃ val ∈ lowest barriers vals, DependsOn barriers barr val := by
  induction barr using Nat.strong_induction_on with
  | _ barr ih =>
    by_cases none : (getDependencies barriers barr).countP (· ∈ vals) = 0
    · exact ⟨barr, mem_filter.mpr ⟨mem, decide_eq_true none⟩, .refl⟩
    · obtain ⟨dependency, step, inside⟩ := countP_pos_iff.mp (Nat.pos_of_ne_zero none)
      obtain ⟨val, isLowest, depends⟩ := ih dependency
        (topological barr dependency step) (of_decide_eq_true inside)
      exact ⟨val, isLowest, .head step depends⟩

theorem lcaOfTwo_generates (lhs rhs : Nat) :
    Generates barriers (lcaOfTwo barriers lhs rhs) (commonDescendants barriers [lhs, rhs]) := by
  have common : ∀ barr, barr ∈ commonDescendants barriers [lhs, rhs] ↔
      DependsOn barriers barr lhs ∧ DependsOn barriers barr rhs := by
    simp [commonDescendants]
  intro barr
  rw [common]
  constructor
  · rintro ⟨onLhs, onRhs⟩
    unfold lcaOfTwo
    split
    · exact ⟨lhs, mem_singleton_self _, onLhs⟩
    · split
      · exact exists_lowest topological ((mem_intersection topological).mpr ⟨onRhs, onLhs⟩)
      · exact exists_lowest topological ((mem_intersection topological).mpr ⟨onLhs, onRhs⟩)
  · rintro ⟨val, found, depends⟩
    obtain ⟨onLhs, onRhs⟩ := dependsOn_of_mem_lcaOfTwo found
    exact ⟨depends.trans onLhs, depends.trans onRhs⟩

end

theorem mem_commonDescendants_append :
    barr ∈ commonDescendants barriers (vals ++ [rhs]) ↔
      barr ∈ commonDescendants barriers vals ∧ DependsOn barriers barr rhs := by
  unfold commonDescendants
  simp [or_imp, forall_and]

section

variable (topological : Topological barriers)
include topological

theorem Generates.lcaWith {lcas vals : List Nat}
    (generates : Generates barriers lcas (commonDescendants barriers vals)) (rhs : Nat) :
    Generates barriers (lcaWith barriers lcas rhs)
      (commonDescendants barriers (vals ++ [rhs])) := by
  intro barr
  have ofTwo : ∀ val, (∃ lowest ∈ lcaOfTwo barriers val rhs, DependsOn barriers barr lowest) ↔
      DependsOn barriers barr val ∧ DependsOn barriers barr rhs := by
    intro val
    rw [← lcaOfTwo_generates topological val rhs barr]
    simp [commonDescendants]
  rw [mem_commonDescendants_append, generates barr]
  constructor
  · rintro ⟨⟨val, inLcas, onVal⟩, onRhs⟩
    obtain ⟨lowest, found, depends⟩ := (ofTwo val).mpr ⟨onVal, onRhs⟩
    exact ⟨lowest, mem_flatMap.mpr ⟨val, inLcas, found⟩, depends⟩
  · rintro ⟨lowest, found, depends⟩
    obtain ⟨val, inLcas, inTwo⟩ := mem_flatMap.mp found
    obtain ⟨onVal, onRhs⟩ := (ofTwo val).mp ⟨lowest, inTwo, depends⟩
    exact ⟨⟨val, inLcas, onVal⟩, onRhs⟩

theorem lca_generates (occupied : vals ≠ []) :
    Generates barriers (lca barriers vals) (commonDescendants barriers vals) := by
  have loop : ∀ (rest : List Nat) {lcas known : List Nat},
      Generates barriers lcas (commonDescendants barriers known) →
      Generates barriers (rest.foldl (lcaWith barriers) lcas)
        (commonDescendants barriers (known ++ rest)) := by
    intro rest
    induction rest with
    | nil => exact fun generates => (append_nil _).symm ▸ generates
    | cons rhs rest ih =>
      intro lcas known generates
      have next := ih (generates.lcaWith topological rhs)
      rwa [append_assoc] at next
  match vals, occupied with
  | [only], _ =>
    intro barr
    simp [commonDescendants, lca]
  | first :: second :: rest, _ => exact loop rest (lcaOfTwo_generates topological first second)

theorem Generates.getMinBarrier_eq_some_iff {lcas : List Nat} {common : Set Nat}
    (generates : Generates barriers lcas common) :
    getMinBarrier lcas = some barr ↔ IsLeast common barr := by
  have below : ∀ {first}, first ∈ lowerBounds common ↔ ∀ val ∈ lcas, first ≤ val := by
    intro first
    constructor
    · exact fun bound val mem => bound ((generates val).mpr ⟨val, mem, .refl⟩)
    · intro bound other inCommon
      obtain ⟨val, mem, depends⟩ := (generates other).mp inCommon
      exact (bound val mem).trans (topological.le_of_dependsOn depends)
  rw [getMinBarrier, min?_eq_some_iff, IsLeast, below]
  refine and_congr_left fun least => ⟨fun mem => (generates barr).mpr ⟨barr, mem, .refl⟩,
    fun inCommon => ?_⟩
  obtain ⟨val, mem, depends⟩ := (generates barr).mp inCommon
  rwa [(least val mem).antisymm (topological.le_of_dependsOn depends)]

end

/-- Whatever searches filled the cache, the smallest barrier that is found is the first of those
that are, or depend on, all barriers of a list, every barrier that is found is one of them, and none
is found when there is none. -/
theorem lca_spec (topological : Topological barriers) (queries : List (List Nat))
    {barrierVals : List Nat} (occupied : barrierVals ≠ []) :
    let lcas := (lcaCached barriers barrierVals (cacheAfter barriers queries)).1
    (∀ barr, getMinBarrier lcas = some barr ↔
        IsLeast (commonDescendants barriers barrierVals) barr) ∧
      (∀ barr ∈ lcas, barr ∈ commonDescendants barriers barrierVals) ∧
      (lcas = [] ↔ commonDescendants barriers barrierVals = ∅) := by
  rw [(lcaCached_computes barrierVals _ (valid_cacheAfter queries)).1]
  have generates := lca_generates topological occupied
  refine ⟨fun barr => generates.getMinBarrier_eq_some_iff topological,
    fun barr found => (generates barr).mpr ⟨barr, found, .refl⟩, ?_⟩
  rw [eq_nil_iff_forall_not_mem, Set.eq_empty_iff_forall_notMem]
  constructor
  · intro none barr inCommon
    obtain ⟨val, mem, -⟩ := (generates barr).mp inCommon
    exact none val mem
  · exact fun none barr found => none barr ((generates barr).mpr ⟨barr, found, .refl⟩)

/-- Two barriers that others wait for together. -/
def joinedBarriers : List ConfigureBarrierOp :=
  [⟨0, [], none⟩, ⟨1, [], none⟩, ⟨2, [0, 1], none⟩, ⟨3, [2, 0], none⟩]

theorem lca_spec_joined :
    IsLeast (commonDescendants joinedBarriers [0, 1]) 2 ∧
      commonDescendants joinedBarriers [0, 1] ≠ ∅ := by
  have topological : Topological joinedBarriers := by
    intro barr dependency mem
    have all : ∀ barr < 4, ∀ dependency ∈ getDependencies joinedBarriers barr,
        dependency < barr := by decide
    exact all barr (lt_of_dependency mem) dependency mem
  have spec := lca_spec topological [[1, 0], [3, 2]] (cons_ne_nil 0 [1])
  exact ⟨(spec.1 2).mp rfl, fun none => absurd (spec.2.2.mpr none) (cons_ne_nil 2 [])⟩

end NpuPlugin.AddEnqueueOps
