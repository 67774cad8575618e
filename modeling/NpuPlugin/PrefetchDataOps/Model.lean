/-
This file models the reordering of a schedule that lets data operations run ahead of the operations
that need them: the schedule is run with data operations on a queue of their own, and then with all
transfers in the order that was found.
-/

import Mathlib.Algebra.Order.BigOperators.Group.List
import Mathlib.Data.UInt
import NpuPlugin.FeasibleMemoryScheduler.State
import NpuPlugin.Library.TopologicalOrder
import NpuPlugin.Library.Loop
import NpuPlugin.Library.Words

namespace NpuPlugin.PrefetchDataOps

open List Nat Run

open FeasibleMemoryScheduler (ExecutorKind EOpType)

/-! ### What is reordered -/

/-- An element of the initial schedule. -/
structure ScheduledOp where
  op : Nat
  opType : EOpType
  cycleBegin : UInt64
  cycleEnd : UInt64
  execKind : ExecutorKind
deriving DecidableEq

def ScheduledOp.isOriginalOp (entry : ScheduledOp) : Bool :=
  entry.opType = .originalOp || entry.opType = .originalPrefetchedOp ||
    entry.opType = .originalSpillWriteOp || entry.opType = .originalSpillReadOp

/-- The initial schedule and the dependencies of the `async.execute` operations. The scheduler marks
an element of the schedule as a data operation by the operation alone. -/
structure Program where
  opCount : Nat
  getOpDeps : Nat → List Nat
  isDataOp : Nat → Bool
  scheduledOps : List ScheduledOp
  op_lt : ∀ entry ∈ scheduledOps, entry.op < opCount

/-- What is thrown, with two outcomes of the code that are none: a read past the end of a queue and
a loop that does not end. -/
inductive Failure
  | noCycleCost (opIdx : Nat)
  | dependencyNotScheduled (depIdx opIdx : Nat)
  | asyncOpNotLocated (opIdx : Nat)
  | pastEnd
  | unending
deriving DecidableEq, Repr

namespace Program

variable (prog : Program)

/-- `_operationCycleCost`. The last element of an operation gives its cost. -/
def operationCycleCost : Nat → Option UInt64 :=
  prog.scheduledOps.foldl
    (fun costs entry => Function.update costs entry.op (some (entry.cycleEnd - entry.cycleBegin)))
    fun _ => none

variable (opIdx : Nat)

/-- Whether `_dataOpIdx` has an operation. -/
def inDataOpIdx : Bool := prog.scheduledOps.any fun entry => entry.op = opIdx && prog.isDataOp opIdx

/-- Whether `_computeExecutorKindOpIdx` has an operation. -/
def inComputeExecutorKindOpIdx : Bool :=
  prog.scheduledOps.any fun entry =>
    entry.op = opIdx && !prog.isDataOp opIdx && entry.execKind ≠ .dmaNN

def hasDependencies : Bool := !(prog.getOpDeps opIdx).isEmpty

def getOperationCycleCost : Except Failure UInt64 :=
  match prog.operationCycleCost opIdx with
  | none => .error (.noCycleCost opIdx)
  | some cycleCost => .ok cycleCost

end Program

/-! ### The state -/

/-- `PrefetchDataOps::CycleInfo`. Cycles wrap around. -/
structure CycleInfo where
  opIdx : Nat
  cycleBegin : UInt64
  cycleCost : UInt64
  executorKind : ExecutorKind
deriving DecidableEq, Repr

def CycleInfo.getCycleEnd (info : CycleInfo) : UInt64 := info.cycleBegin + info.cycleCost

/-- `_cycleInfoStallDummyOp`. -/
def cycleInfoStallDummyOp : Nat := 2 ^ 64 - 1

/-- `std::numeric_limits<size_t>::max()`. -/
def maxCycle : UInt64 := .ofNat (2 ^ 64 - 1)

/-- The queues, and the cycles of the operations that are scheduled. -/
structure State where
  prefetchPipeline : List CycleInfo
  prefetchPipelineStalls : List CycleInfo
  operationCycles : List CycleInfo
  executorPipelineCycles : ExecutorKind → List CycleInfo

namespace State

variable (state : State)

def cyclesOf (opIdx : Nat) : Option CycleInfo :=
  state.operationCycles.find? fun info => info.opIdx = opIdx

def isScheduled (opIdx : Nat) : Bool := (state.cyclesOf opIdx).isSome

def getNextFreePipelineCycle (executorKind : ExecutorKind) : UInt64 :=
  match (state.executorPipelineCycles executorKind).getLast? with
  | none => 0
  | some info => info.getCycleEnd

/-- `getNextFreePipelineCycle` of the prefetch FIFO. -/
def getNextFreePrefetchCycle : UInt64 :=
  match state.prefetchPipeline.getLast? with
  | none => 0
  | some info => info.getCycleEnd

/-- `_operationCycles[opIdx] = cycleInfo`. -/
def recordCycles (info : CycleInfo) : State :=
  { state with
    operationCycles := state.operationCycles.filter (fun other => other.opIdx ≠ info.opIdx) ++
      [info] }

def scheduleOp (info : CycleInfo) : State :=
  { state.recordCycles info with
    executorPipelineCycles := Function.update state.executorPipelineCycles info.executorKind
      (state.executorPipelineCycles info.executorKind ++ [info]) }

/-- `scheduleOp` on the prefetch FIFO. -/
def schedulePrefetchOp (info : CycleInfo) : State :=
  { state.recordCycles info with prefetchPipeline := state.prefetchPipeline ++ [info] }

end State

namespace Program

variable (prog : Program)

def dependenciesScheduled (state : State) (opIdx : Nat) : Bool :=
  (prog.getOpDeps opIdx).all state.isScheduled

def getDependencyCycleEnd (state : State) (opIdx : Nat) : Except Failure UInt64 :=
  (prog.getOpDeps opIdx).foldlM (fun cycleEnd depIdx =>
    match state.cyclesOf depIdx with
    | none => .error (.dependencyNotScheduled depIdx opIdx)
    | some info => .ok (max cycleEnd info.getCycleEnd)) 0

end Program

/-! ### The stalls of the prefetch FIFO -/

/-- The prefetch FIFO is walked from its end. -/
def updatePrefetchPipeline (fromCycle toCycle adjustCycles : UInt64) :
    List CycleInfo → List CycleInfo
  | [] => []
  | op :: earlier =>
    if op.getCycleEnd > toCycle then
      op :: updatePrefetchPipeline fromCycle toCycle adjustCycles earlier
    else if op.cycleBegin < fromCycle then op :: earlier
    else
      { op with cycleBegin := op.cycleBegin - adjustCycles } ::
        updatePrefetchPipeline fromCycle toCycle adjustCycles earlier

/-- How many stalls, from the last one on, are needed, and how many cycles they free. -/
def stallsToEliminate (targetRollback : UInt64) : List CycleInfo → UInt64 → Nat × UInt64
  | [], cyclesFreed => (0, cyclesFreed)
  | stall :: earlier, cyclesFreed =>
    if cyclesFreed < targetRollback then
      let rest := stallsToEliminate targetRollback earlier (cyclesFreed + stall.cycleCost)
      (rest.1 + 1, rest.2)
    else (0, cyclesFreed)

/-- The stalls and the prefetch FIFO, the last one first, after the loop that eliminates a number of
stalls. A stall is looked at again until it is erased. -/
def eliminateStalls : Nat → Nat → List CycleInfo → List CycleInfo → UInt64 → UInt64 →
    Except Failure (List CycleInfo × List CycleInfo)
  | _, 0, stalls, pipeline, _, _ => .ok (stalls, pipeline)
  | _, _ + 1, [], _, _, _ => .error .pastEnd
  | 0, _ + 1, _ :: _, _, _, _ => .error .unending
  | fuel + 1, left + 1, stall :: earlier, pipeline, cyclesFreed, rangeEnd =>
    let adjusted := updatePrefetchPipeline stall.getCycleEnd rangeEnd cyclesFreed pipeline
    let cyclesLeft := cyclesFreed - stall.cycleCost
    if cyclesLeft ≥ stall.cycleCost then
      eliminateStalls fuel left earlier adjusted cyclesLeft stall.cycleBegin
    else eliminateStalls fuel (left + 1) (stall :: earlier) adjusted cyclesLeft stall.cycleBegin

/-- The number of turns after which a stall has been erased. -/
def turnsPerStall : Nat := 2 ^ 64 + 1

def reducePrefetchPipelineStalls (state : State) (targetRollback : UInt64) :
    Except Failure State := do
  let needed := stallsToEliminate targetRollback state.prefetchPipelineStalls.reverse 0
  let cyclesFreed := min needed.2 targetRollback
  let (stalls, pipeline) ← eliminateStalls (needed.1 * turnsPerStall) needed.1
    state.prefetchPipelineStalls.reverse state.prefetchPipeline.reverse cyclesFreed maxCycle
  return { state with
    prefetchPipelineStalls := stalls.reverse
    prefetchPipeline := pipeline.reverse }

/-! ### Scheduling -/

namespace Program

variable (prog : Program)

def schedulePrefetchDMA (state : State) (opIdx : Nat) (optimalCycleEnd : UInt64) :
    Except Failure State := do
  let earliestScheduleCycle := state.getNextFreePrefetchCycle
  let cycleCost ← prog.getOperationCycleCost opIdx
  let cycleEnd := earliestScheduleCycle + cycleCost
  if cycleEnd < optimalCycleEnd then
    let stall : CycleInfo := ⟨cycleInfoStallDummyOp, earliestScheduleCycle,
      optimalCycleEnd - cycleCost - earliestScheduleCycle, .dmaNN⟩
    let stalled := { state with prefetchPipelineStalls := state.prefetchPipelineStalls ++ [stall] }
    return stalled.schedulePrefetchOp ⟨opIdx, optimalCycleEnd - cycleCost, cycleCost, .dmaNN⟩
  else if cycleEnd > optimalCycleEnd then
    let reduced ← if state.prefetchPipelineStalls.isEmpty then pure state
      else reducePrefetchPipelineStalls state (cycleEnd - optimalCycleEnd)
    return reduced.schedulePrefetchOp
      ⟨opIdx, max cycleCost optimalCycleEnd - cycleCost, cycleCost, .dmaNN⟩
  else return state.schedulePrefetchOp ⟨opIdx, cycleEnd - cycleCost, cycleCost, .dmaNN⟩

def scheduleDMA (state : State) (opIdx : Nat) (optimalCycleEnd : UInt64) :
    Except Failure State := do
  let dependencyCycleEnd ← prog.getDependencyCycleEnd state opIdx
  let earliestScheduleCycle := max (state.getNextFreePipelineCycle .dmaNN) dependencyCycleEnd
  let cycleCost ← prog.getOperationCycleCost opIdx
  let cycleBegin := if optimalCycleEnd ≥ cycleCost then
      max earliestScheduleCycle (optimalCycleEnd - cycleCost)
    else earliestScheduleCycle
  return state.scheduleOp ⟨opIdx, cycleBegin, cycleCost, .dmaNN⟩

/-- The prefetch FIFO is walked from a place on. What stays on it is given back. -/
def prefetchFrom (dmaTargetEndCycle : UInt64) :
    State → List CycleInfo → Except Failure (State × List CycleInfo)
  | state, [] => .ok (state, [])
  | state, nextDMA :: later =>
    if !prog.dependenciesScheduled state nextDMA.opIdx then do
      let (scheduled, kept) ← prefetchFrom dmaTargetEndCycle state later
      return (scheduled, nextDMA :: kept)
    else if state.isScheduled nextDMA.opIdx then prefetchFrom dmaTargetEndCycle state later
    else if nextDMA.cycleBegin > dmaTargetEndCycle then .ok (state, nextDMA :: later)
    else do
      let scheduled ← prog.scheduleDMA state nextDMA.opIdx 0
      prefetchFrom dmaTargetEndCycle scheduled later

def prefetchDataOps (state : State) (dmaTargetEndCycle : UInt64) : Except Failure State := do
  let (scheduled, kept) ← prog.prefetchFrom dmaTargetEndCycle state state.prefetchPipeline
  return { scheduled with prefetchPipeline := kept }

/-- The cycle at which an operation can begin, as far as its dependencies are scheduled. -/
def targetCycleEnd (state : State) (opIdx : Nat) (executorKind : ExecutorKind) : UInt64 :=
  (prog.getOpDeps opIdx).foldl (fun target dep =>
    match state.cyclesOf dep with
    | none => target
    | some info => max target info.getCycleEnd) (state.getNextFreePipelineCycle executorKind)

variable (prefetchOpsDefined : Bool)

/-- A dependency is scheduled on the compute DMA FIFO or on the prefetch FIFO. -/
def scheduleDataOp (state : State) (depIdx : Nat)
    (dataOpTargetCycleEnd : UInt64) : Except Failure State :=
  if prefetchOpsDefined || prog.hasDependencies depIdx then
    prog.scheduleDMA state depIdx dataOpTargetCycleEnd
  else prog.schedulePrefetchDMA state depIdx dataOpTargetCycleEnd

/-- One dependency is scheduled, when it is not yet, and the cycle at which the operation can begin
is raised. -/
def scheduleDependency (reached : State × UInt64) (depIdx : Nat) :
    Except Failure (State × UInt64) :=
  if reached.1.isScheduled depIdx then .ok reached
  else do
    let scheduled ← prog.scheduleDataOp prefetchOpsDefined reached.1 depIdx reached.2
    let cycleEnd := ((scheduled.cyclesOf depIdx).map CycleInfo.getCycleEnd).getD 0
    return (scheduled, max reached.2 cycleEnd)

def scheduleDependenciesForCompute (state : State) (opIdx : Nat)
    (executorKind : ExecutorKind) : Except Failure (State × UInt64) :=
  (prog.getOpDeps opIdx).foldlM (prog.scheduleDependency prefetchOpsDefined)
    (state, prog.targetCycleEnd state opIdx executorKind)

def scheduleComputeOperation (state : State) (opIdx : Nat)
    (executorKind : ExecutorKind) : Except Failure State := do
  let (ready, computeCycleBegin) ←
    prog.scheduleDependenciesForCompute prefetchOpsDefined state opIdx executorKind
  let computeOpCycleCost ← prog.getOperationCycleCost opIdx
  if prefetchOpsDefined && executorKind ≠ .dmaNN then
    let prefetched ← prog.prefetchDataOps ready (computeCycleBegin + computeOpCycleCost)
    let cycleEnd := max (computeCycleBegin + computeOpCycleCost)
      (prefetched.getNextFreePipelineCycle .dmaNN)
    return prefetched.scheduleOp
      ⟨opIdx, cycleEnd - computeOpCycleCost, computeOpCycleCost, executorKind⟩
  else return ready.scheduleOp ⟨opIdx, computeCycleBegin, computeOpCycleCost, executorKind⟩

/-- One element of the initial schedule. Data operations are scheduled with what depends on them. -/
def performCycle (state : State) (entry : ScheduledOp) : Except Failure State :=
  if !entry.isOriginalOp then .ok state
  else if prog.isDataOp entry.op || prefetchOpsDefined && state.isScheduled entry.op then .ok state
  else prog.scheduleComputeOperation prefetchOpsDefined state entry.op entry.execKind

def performCycleScheduling (state : State) : Except Failure State :=
  prog.scheduledOps.foldlM (prog.performCycle prefetchOpsDefined) state

end Program

/-! ### The order of the transfers -/

/-- An element of the new FIFO for data operations, which ends where the one after it begins. -/
def fitBefore (dmaFIFORev : UInt64) (info : CycleInfo) : CycleInfo :=
  let newCycleEnd := max (min dmaFIFORev info.getCycleEnd) info.cycleCost
  ⟨info.opIdx, newCycleEnd - info.cycleCost, info.cycleCost, .dmaNN⟩

namespace Program

variable (prog : Program)

/-- The compute DMA FIFO and the prefetch FIFO are walked from their ends. -/
def mergeFIFOs : Nat → List CycleInfo → List CycleInfo → UInt64 → Except Failure (List CycleInfo)
  | 0, dmaFront, prefetchFront, _ =>
    if dmaFront.isEmpty && prefetchFront.isEmpty then .ok [] else .error .unending
  | _ + 1, [], [], _ => .ok []
  | fuel + 1, [], prefetch :: prefetches, dmaFIFORev => do
    let added := fitBefore dmaFIFORev prefetch
    let rest ← mergeFIFOs fuel [] prefetches added.cycleBegin
    return added :: rest
  | fuel + 1, dma :: dmas, prefetchFront, dmaFIFORev =>
    if !prog.inDataOpIdx dma.opIdx then mergeFIFOs fuel dmas prefetchFront dmaFIFORev
    else
      match prefetchFront with
      | [] =>
        if 0 ≥ dma.getCycleEnd then .error .pastEnd
        else do
          let added := fitBefore dmaFIFORev dma
          let rest ← mergeFIFOs fuel dmas [] added.cycleBegin
          return added :: rest
      | prefetch :: prefetches =>
        if prefetch.cycleBegin ≥ dma.getCycleEnd then do
          let added := fitBefore dmaFIFORev prefetch
          let rest ← mergeFIFOs fuel (dma :: dmas) prefetches added.cycleBegin
          return added :: rest
        else do
          let added := fitBefore dmaFIFORev dma
          let rest ← mergeFIFOs fuel dmas (prefetch :: prefetches) added.cycleBegin
          return added :: rest

/-- All but the stalls is reset. -/
def createDataOpPipeline (state : State) : Except Failure State := do
  let dmaFIFO := state.executorPipelineCycles .dmaNN
  let dataOpPipeline ← prog.mergeFIFOs (dmaFIFO.length + state.prefetchPipeline.length)
    dmaFIFO.reverse state.prefetchPipeline.reverse maxCycle
  return { state with
    prefetchPipeline := dataOpPipeline.reverse
    operationCycles := []
    executorPipelineCycles := fun _ => [] }

end Program

/-! ### The new order -/

/-- The comparison of `sortOps`. -/
def sortsBefore (op1 op2 : CycleInfo) : Bool :=
  if op1.cycleBegin ≠ op2.cycleBegin then op1.cycleBegin < op2.cycleBegin
  else if op1.executorKind ≠ op2.executorKind && op1.executorKind = .dmaNN then true
  else if op1.executorKind ≠ op2.executorKind && op2.executorKind = .dmaNN then false
  else if op1.getCycleEnd ≠ op2.getCycleEnd then op1.getCycleEnd < op2.getCycleEnd
  else op1.opIdx < op2.opIdx

def sortOps (toBeSorted : List CycleInfo) : List CycleInfo :=
  toBeSorted.insertionSort fun op1 op2 => sortsBefore op1 op2

/-- `_advanceComputeExecutorKindOpsForPrefetch`. -/
def advanceComputeExecutorKindOpsForPrefetch : Nat := 2

namespace Program

variable (prog : Program)

def getNextComputeCycleBegin : Nat → UInt64 → List CycleInfo → UInt64
  | _, cycleBegin, [] => cycleBegin
  | computeCount, cycleBegin, temp :: later =>
    if computeCount < advanceComputeExecutorKindOpsForPrefetch then
      getNextComputeCycleBegin
        (if prog.inComputeExecutorKindOpIdx temp.opIdx then computeCount + 1 else computeCount)
        temp.cycleBegin later
    else cycleBegin

/-- The data operations that begin before a cycle and have all they depend on are scheduled. The
others stay. -/
def scheduleDataOps (nextComputeCycleBegin : UInt64) :
    List CycleInfo → List CycleInfo → List CycleInfo × List CycleInfo
  | [], sortedOpCycles => ([], sortedOpCycles)
  | data :: later, sortedOpCycles =>
    if data.cycleBegin ≥ nextComputeCycleBegin then (data :: later, sortedOpCycles)
    else if (prog.getOpDeps data.opIdx).all fun depIdx =>
        sortedOpCycles.any fun info => info.opIdx = depIdx then
      scheduleDataOps nextComputeCycleBegin later (sortedOpCycles ++ [data])
    else
      let rest := scheduleDataOps nextComputeCycleBegin later sortedOpCycles
      (data :: rest.1, rest.2)

/-- With no compute operation left, the first data operation is scheduled again and again. -/
def interleave : Nat → List CycleInfo → List CycleInfo → List CycleInfo →
    Except Failure (List CycleInfo)
  | _, [], [], sortedOpCycles => .ok sortedOpCycles
  | 0, _, _, _ => .error .unending
  | fuel + 1, [], compute :: computes, sortedOpCycles =>
    interleave fuel [] computes (sortedOpCycles ++ [compute])
  | fuel + 1, data :: datas, [], sortedOpCycles =>
    interleave fuel (data :: datas) [] (sortedOpCycles ++ [data])
  | fuel + 1, data :: datas, compute :: computes, sortedOpCycles =>
    let placed := prog.scheduleDataOps
      (prog.getNextComputeCycleBegin 0 maxCycle (compute :: computes))
      (data :: datas) sortedOpCycles
    interleave fuel placed.1 computes (placed.2 ++ [compute])

def getNewOrder (state : State) : Except Failure (List CycleInfo) :=
  let sortedDataOps := sortOps
    (state.operationCycles.filter fun info => prog.inDataOpIdx info.opIdx)
  let sortedComputeAndDMAOps := sortOps
    (state.operationCycles.filter fun info => !prog.inDataOpIdx info.opIdx)
  prog.interleave sortedComputeAndDMAOps.length sortedDataOps sortedComputeAndDMAOps []

end Program

def moveBefore (ir : List Nat) (existing op : Nat) : List Nat :=
  if op = existing then ir
  else (ir.erase op).flatMap fun other => if other = existing then [op, other] else [other]

def moveAfter (ir : List Nat) (existing op : Nat) : List Nat :=
  if op = existing then ir
  else (ir.erase op).flatMap fun other => if other = existing then [other, op] else [other]

namespace Program

variable (prog : Program)

/-- The operations of the IR by their indexes. The first operation is moved before the one with
index 0, and each other one after the one before it. -/
def reorderStep (moved : Option Nat × List Nat) (opCycles : CycleInfo) :
    Except Failure (Option Nat × List Nat) :=
  if opCycles.opIdx < prog.opCount then
    match moved.1 with
    | none => .ok (some opCycles.opIdx, moveBefore moved.2 0 opCycles.opIdx)
    | some prevAsyncOp => .ok (some opCycles.opIdx, moveAfter moved.2 prevAsyncOp opCycles.opIdx)
  else .error (.asyncOpNotLocated opCycles.opIdx)

def reorderToPrefetch (sortedOpCycles : List CycleInfo) : Except Failure (List Nat) := do
  let moved ← sortedOpCycles.foldlM prog.reorderStep (none, List.range prog.opCount)
  return moved.2

/-- The new order, and the IR after it. -/
def enableDataOpPrefetching : Except Failure (List CycleInfo × List Nat) := do
  let prefetching ← prog.performCycleScheduling false ⟨[], [], [], fun _ => []⟩
  let ordered ← prog.createDataOpPipeline prefetching
  let scheduled ← prog.performCycleScheduling true ordered
  let newOpOrder ← prog.getNewOrder scheduled
  let ir ← prog.reorderToPrefetch newOpOrder
  return (newOpOrder, ir)

end Program

/-! ### The FIFO -/

theorem updatePrefetchPipeline_opIdx (fromCycle toCycle adjustCycles : UInt64)
    (pipeline : List CycleInfo) :
    (updatePrefetchPipeline fromCycle toCycle adjustCycles pipeline).map CycleInfo.opIdx =
      pipeline.map CycleInfo.opIdx := by
  induction pipeline with
  | nil => rfl
  | cons op earlier ih =>
    rw [updatePrefetchPipeline]
    split
    · rw [map_cons, map_cons, ih]
    · split
      · rfl
      · rw [map_cons, map_cons, ih]

theorem stallsToEliminate_le (targetRollback : UInt64) (stalls : List CycleInfo)
    (cyclesFreed : UInt64) :
    (stallsToEliminate targetRollback stalls cyclesFreed).1 ≤ stalls.length := by
  induction stalls generalizing cyclesFreed with
  | nil => exact le_refl 0
  | cons stall earlier ih =>
    rw [stallsToEliminate]
    split
    · exact succ_le_succ (ih _)
    · exact zero_le _

/-! ### The loop -/

/-- The loop has ended with these operations on the FIFO. -/
def Ended (ops : List Nat) (run : Except Failure (List CycleInfo × List CycleInfo)) : Prop :=
  ∃ stallsLeft adjusted, run = .ok (stallsLeft, adjusted) ∧ adjusted.map CycleInfo.opIdx = ops

/-- The loop ends whenever it has some number of turns, with the operations of the FIFO. -/
def EndsWithin (turns left : Nat) (stalls : List CycleInfo) (ops : List Nat) : Prop :=
  ∀ (fuel : Nat) (pipeline : List CycleInfo) (cyclesFreed rangeEnd : UInt64), turns ≤ fuel →
    pipeline.map CycleInfo.opIdx = ops →
      Ended ops (eliminateStalls fuel left stalls pipeline cyclesFreed rangeEnd)

section

variable {turns left : Nat} {stall : CycleInfo} {earlier : List CycleInfo} {ops : List Nat}

/-- One turn erases the stall, or the same stall is looked at again. -/
theorem EndsWithin.turn (ends : EndsWithin turns left earlier ops) (fuel : Nat)
    (pipeline : List CycleInfo) (cyclesFreed rangeEnd : UInt64) (enough : turns ≤ fuel)
    (same : pipeline.map CycleInfo.opIdx = ops)
    (lookAgain : cyclesFreed - stall.cycleCost < stall.cycleCost →
      ∀ kept : List CycleInfo, kept.map CycleInfo.opIdx = ops →
        Ended ops (eliminateStalls fuel (left + 1) (stall :: earlier) kept
          (cyclesFreed - stall.cycleCost) stall.cycleBegin)) :
    Ended ops (eliminateStalls (fuel + 1) (left + 1) (stall :: earlier) pipeline cyclesFreed
      rangeEnd) := by
  have kept := (updatePrefetchPipeline_opIdx stall.getCycleEnd rangeEnd cyclesFreed
    pipeline).trans same
  rw [eliminateStalls]
  by_cases erased : cyclesFreed - stall.cycleCost ≥ stall.cycleCost
  · obtain ⟨stallsLeft, adjusted, res, found⟩ :=
      ends fuel _ (cyclesFreed - stall.cycleCost) stall.cycleBegin enough kept
    exact ⟨stallsLeft, adjusted, (if_pos erased).trans res, found⟩
  · obtain ⟨stallsLeft, adjusted, res, found⟩ := lookAgain (UInt64.not_le.mp erased) _ kept
    exact ⟨stallsLeft, adjusted, (if_neg erased).trans res, found⟩

/-- With fewer cycles than the stall has, each turn wraps around and brings them closer to the
cycles of the stall. -/
theorem EndsWithin.of_lt (ends : EndsWithin turns left earlier ops) (distance : Nat) :
    ∀ (fuel : Nat) (pipeline : List CycleInfo) (cyclesFreed rangeEnd : UInt64),
      stall.cycleCost.toNat - cyclesFreed.toNat ≤ distance → cyclesFreed < stall.cycleCost →
      turns + distance ≤ fuel → pipeline.map CycleInfo.opIdx = ops →
        Ended ops (eliminateStalls fuel (left + 1) (stall :: earlier) pipeline cyclesFreed
          rangeEnd) := by
  induction distance with
  | zero =>
    intro fuel pipeline cyclesFreed rangeEnd close less
    have := UInt64.lt_iff_toNat_lt.mp less
    omega
  | succ distance ih =>
    intro fuel pipeline cyclesFreed rangeEnd close less enough same
    obtain ⟨fuel, rfl⟩ : ∃ rest, fuel = rest + 1 := ⟨fuel - 1, by omega⟩
    refine ends.turn fuel _ _ _ (by omega) same fun again adjusted kept => ?_
    have wrapped := Words.toNat_sub_of_lt less
    have bound := stall.cycleCost.toNat_lt
    exact ih fuel adjusted _ _ (by omega) again (by omega) kept

theorem EndsWithin.cons (ends : EndsWithin turns left earlier ops) :
    EndsWithin (turns + turnsPerStall) (left + 1) (stall :: earlier) ops := by
  intro fuel pipeline cyclesFreed rangeEnd enough same
  unfold turnsPerStall at enough
  obtain ⟨fuel, rfl⟩ : ∃ rest, fuel = rest + 1 := ⟨fuel - 1, by omega⟩
  refine ends.turn fuel _ _ _ (by omega) same fun again adjusted kept => ?_
  have bound := stall.cycleCost.toNat_lt
  exact ends.of_lt (2 ^ 64) fuel adjusted _ _ (by omega) again (by omega) kept

theorem endsWithin (ops : List Nat) (stalls : List CycleInfo) (left : Nat)
    (enough : left ≤ stalls.length) : EndsWithin (left * turnsPerStall) left stalls ops := by
  induction left generalizing stalls with
  | zero =>
    intro fuel pipeline cyclesFreed rangeEnd _ same
    refine ⟨stalls, pipeline, ?_, same⟩
    cases fuel <;> rw [eliminateStalls]
  | succ left ih =>
    cases stalls with
    | nil => cases enough
    | cons stall earlier =>
      rw [succ_mul]
      exact (ih earlier (le_of_succ_le_succ enough)).cons

end

theorem reducePrefetchPipelineStalls_ok (state : State) (targetRollback : UInt64) :
    ∃ stalls pipeline,
      reducePrefetchPipelineStalls state targetRollback =
        .ok { state with prefetchPipelineStalls := stalls, prefetchPipeline := pipeline } ∧
      pipeline.map CycleInfo.opIdx = state.prefetchPipeline.map CycleInfo.opIdx := by
  have few := stallsToEliminate_le targetRollback state.prefetchPipelineStalls.reverse 0
  obtain ⟨stalls, pipeline, ended, same⟩ := endsWithin
    (state.prefetchPipeline.reverse.map CycleInfo.opIdx) _ _ few _ state.prefetchPipeline.reverse
    (min (stallsToEliminate targetRollback state.prefetchPipelineStalls.reverse 0).2
      targetRollback) maxCycle le_rfl rfl
  refine ⟨stalls.reverse, pipeline.reverse, ?_, ?_⟩
  · exact Run.ok_bind ended _
  · rw [map_reverse, same, map_reverse, reverse_reverse]

open Function List
open DependencyOrder (Ordered)
open FeasibleMemoryScheduler (ExecutorKind)

/-! ### The input -/

namespace Program

variable (prog : Program)

def originalOps : List Nat := (prog.scheduledOps.filter ScheduledOp.isOriginalOp).map ScheduledOp.op

def costOf (opIdx : Nat) : Nat := ((prog.operationCycleCost opIdx).map UInt64.toNat).getD 0

def totalCost : Nat := (prog.originalOps.map prog.costOf).sum

/-- Whenever an operation needs a data operation, the data operations this one needs in turn are
scheduled: they are needed by an operation before, or they are among the dependencies before it. -/
def NoUnscheduledData : Prop :=
  ∀ before opIdx after, prog.originalOps = before ++ opIdx :: after →
    prog.isDataOp opIdx = false → ∀ earlier dep later,
      prog.getOpDeps opIdx = earlier ++ dep :: later → prog.isDataOp dep = true →
        ∀ prior ∈ prog.getOpDeps dep, prog.isDataOp prior = true → prior ∈ earlier ∨
          ∃ consumer ∈ before, prog.isDataOp consumer = false ∧
            prior ∈ prog.getOpDeps consumer

/-- The schedules that are reordered. -/
structure Admitted : Prop where
  nodup : prog.originalOps.Nodup
  ordered : Ordered prog.getOpDeps prog.originalOps
  cost_pos : ∀ opIdx ∈ prog.originalOps, 0 < prog.costOf opIdx
  needed : ∀ opIdx ∈ prog.originalOps, prog.isDataOp opIdx = true →
    ∃ consumer ∈ prog.originalOps, prog.isDataOp consumer = false ∧
      opIdx ∈ prog.getOpDeps consumer
  noUnscheduledData : prog.NoUnscheduledData

variable {prog} {opIdx : Nat} {cycleCost : UInt64}

theorem operationCycleCost_of_pos (pos : 0 < prog.costOf opIdx) :
    ∃ cycleCost, prog.operationCycleCost opIdx = some cycleCost ∧
      cycleCost.toNat = prog.costOf opIdx := by
  unfold costOf at pos ⊢
  cases found : prog.operationCycleCost opIdx with
  | none =>
    rw [found] at pos
    cases pos
  | some cycleCost => exact ⟨cycleCost, rfl, rfl⟩

section

variable (found : prog.operationCycleCost opIdx = some cycleCost)
include found

theorem getOperationCycleCost_ok : prog.getOperationCycleCost opIdx = .ok cycleCost := by
  unfold getOperationCycleCost
  rw [found]

theorem costOf_eq : prog.costOf opIdx = cycleCost.toNat := by
  unfold costOf
  rw [found]
  rfl

end

end Program

/-! ### The cycles so far -/

namespace State

variable {state : State}

def scheduledOps (state : State) : List Nat := state.operationCycles.map CycleInfo.opIdx

/-- The sum of the costs of what is scheduled. -/
def used (state : State) : Nat := (state.operationCycles.map fun info => info.cycleCost.toNat).sum

variable {opIdx : Nat} {info : CycleInfo}

theorem mem_of_cyclesOf (found : state.cyclesOf opIdx = some info) :
    info ∈ state.operationCycles ∧ info.opIdx = opIdx := by
  exact ⟨mem_of_find?_eq_some found, of_decide_eq_true (find?_some found :)⟩

theorem isScheduled_iff : state.isScheduled opIdx = true ↔ opIdx ∈ state.scheduledOps := by
  unfold isScheduled cyclesOf scheduledOps
  rw [find?_isSome, mem_map]
  simp only [decide_eq_true_eq]

theorem cyclesOf_eq (nodup : state.scheduledOps.Nodup) (mem : info ∈ state.operationCycles) :
    state.cyclesOf info.opIdx = some info := by
  have scheduled : state.isScheduled info.opIdx = true := isScheduled_iff.mpr (mem_map_of_mem mem)
  obtain ⟨other, found⟩ := Option.isSome_iff_exists.mp scheduled
  obtain ⟨otherMember, same⟩ := mem_of_cyclesOf found
  rw [found, inj_on_of_nodup_map nodup otherMember mem same]

theorem recordCycles_of_new (unscheduled : info.opIdx ∉ state.scheduledOps) :
    (state.recordCycles info).operationCycles = state.operationCycles ++ [info] := by
  show state.operationCycles.filter _ ++ [info] = _
  rw [filter_eq_self.mpr]
  intro other mem
  exact decide_eq_true fun same => unscheduled (same ▸ mem_map_of_mem mem)

end State

/-- What holds while operations are scheduled. With the order of the transfers defined, an
operation also begins after what it depends on has ended. -/
structure Consistent (prog : Program) (prefetchOpsDefined : Bool) (state : State) : Prop where
  nodup : state.scheduledOps.Nodup
  original : ∀ opIdx ∈ state.scheduledOps, opIdx ∈ prog.originalOps
  cost : ∀ info ∈ state.operationCycles,
    prog.operationCycleCost info.opIdx = some info.cycleCost
  bounded : ∀ info ∈ state.operationCycles, info.getCycleEnd.toNat ≤ state.used
  queued : ∀ executorKind, ∀ info ∈ state.executorPipelineCycles executorKind,
    info.opIdx ∈ state.scheduledOps ∧ info.cycleCost.toNat = prog.costOf info.opIdx ∧
      info.cycleBegin.toNat + info.cycleCost.toNat ≤ state.used
  prefetched : ∀ info ∈ state.prefetchPipeline,
    prog.isDataOp info.opIdx = true ∧ info.opIdx ∈ prog.originalOps
  waited : prefetchOpsDefined = true → ∀ info ∈ state.operationCycles,
    info.cycleBegin.toNat + info.cycleCost.toNat ≤ state.used ∧
      ∀ dep ∈ prog.getOpDeps info.opIdx, ∃ other ∈ state.operationCycles, other.opIdx = dep ∧
        other.getCycleEnd.toNat ≤ info.cycleBegin.toNat

variable {stalls pipeline : List CycleInfo}

section

variable {prog : Program} {prefetchOpsDefined : Bool} {state : State}

theorem Program.sum_le_totalCost {ops : List Nat} (nodup : ops.Nodup)
    (subset : ops ⊆ prog.originalOps) : (ops.map prog.costOf).sum ≤ prog.totalCost := by
  obtain ⟨same, perm, sublist⟩ := subperm_of_subset nodup subset
  rw [← (perm.map prog.costOf).sum_nat]
  exact (sublist.map prog.costOf).sum_le_sum fun _ _ => Nat.zero_le _

section

variable (consistent : Consistent prog prefetchOpsDefined state)
include consistent

theorem Consistent.used_eq : state.used = (state.scheduledOps.map prog.costOf).sum := by
  unfold State.used State.scheduledOps
  rw [map_map]
  refine congrArg List.sum (map_congr_left fun info mem => ?_)
  exact (Program.costOf_eq (consistent.cost info mem)).symm

/-- With one more operation the sum of the costs is still at most the whole cost. -/
theorem Consistent.used_add_le {opIdx : Nat} (unscheduled : opIdx ∉ state.scheduledOps)
    (original : opIdx ∈ prog.originalOps) : state.used + prog.costOf opIdx ≤ prog.totalCost := by
  have bound := Program.sum_le_totalCost (nodup_cons.mpr ⟨unscheduled, consistent.nodup⟩)
    (cons_subset.mpr ⟨original, consistent.original⟩)
  rw [map_cons, sum_cons, ← consistent.used_eq] at bound
  omega

theorem Consistent.used_le : state.used ≤ prog.totalCost := by
  rw [consistent.used_eq]
  exact Program.sum_le_totalCost consistent.nodup consistent.original

theorem Consistent.queued_lt (fits : prog.totalCost < 2 ^ 64) {executorKind : ExecutorKind}
    {info : CycleInfo} (mem : info ∈ state.executorPipelineCycles executorKind) :
    info.getCycleEnd.toNat = info.cycleBegin.toNat + info.cycleCost.toNat := by
  have bound := (consistent.queued executorKind info mem).2.2
  have total := consistent.used_le
  exact Words.toNat_add (by omega)

theorem Consistent.getNextFreePipelineCycle_le (fits : prog.totalCost < 2 ^ 64)
    (executorKind : ExecutorKind) :
    (state.getNextFreePipelineCycle executorKind).toNat ≤ state.used := by
  unfold State.getNextFreePipelineCycle
  cases last : (state.executorPipelineCycles executorKind).getLast? with
  | none => exact Nat.zero_le _
  | some info =>
    have mem := mem_of_getLast? last
    show info.getCycleEnd.toNat ≤ state.used
    rw [consistent.queued_lt fits mem]
    exact (consistent.queued executorKind info mem).2.2

end

/-! ### One more operation -/

variable {after : State} {info : CycleInfo}

section

variable (recorded : after.operationCycles = state.operationCycles ++ [info])
include recorded

theorem scheduledOps_concat : after.scheduledOps = state.scheduledOps ++ [info.opIdx] := by
  unfold State.scheduledOps
  rw [recorded, map_append]
  rfl

theorem used_concat : after.used = state.used + info.cycleCost.toNat := by
  unfold State.used
  rw [recorded, map_append, sum_append]
  rfl

end

/-- What is asked of the cycles of an operation that is scheduled. -/
structure Fitting (prog : Program) (prefetchOpsDefined : Bool) (state : State)
    (info : CycleInfo) : Prop where
  unscheduled : info.opIdx ∉ state.scheduledOps
  original : info.opIdx ∈ prog.originalOps
  cost : prog.operationCycleCost info.opIdx = some info.cycleCost
  ended : info.getCycleEnd.toNat ≤ state.used + info.cycleCost.toNat
  waited : prefetchOpsDefined = true → info.cycleBegin.toNat ≤ state.used ∧
    ∀ dep ∈ prog.getOpDeps info.opIdx, ∃ other ∈ state.operationCycles, other.opIdx = dep ∧
      other.getCycleEnd.toNat ≤ info.cycleBegin.toNat

section

variable (consistent : Consistent prog prefetchOpsDefined state)
  (fitting : Fitting prog prefetchOpsDefined state info)
include consistent fitting

theorem Consistent.record (recorded : after.operationCycles = state.operationCycles ++ [info])
    (queued : ∀ executorKind, ∀ other ∈ after.executorPipelineCycles executorKind,
      other ∈ state.executorPipelineCycles executorKind ∨
        other = info ∧ info.cycleBegin.toNat ≤ state.used)
    (prefetched : ∀ opIdx ∈ after.prefetchPipeline.map CycleInfo.opIdx,
      opIdx ∈ state.prefetchPipeline.map CycleInfo.opIdx ∨
        opIdx = info.opIdx ∧ prog.isDataOp opIdx = true) :
    Consistent prog prefetchOpsDefined after := by
  have scheduled := scheduledOps_concat recorded
  have used := used_concat recorded
  have kept : ∀ other ∈ state.operationCycles, other ∈ after.operationCycles := by
    intro other mem
    rw [recorded]
    exact mem_append_left _ mem
  constructor
  · rw [scheduled, nodup_append_comm]
    exact nodup_cons.mpr ⟨fitting.unscheduled, consistent.nodup⟩
  · rw [scheduled, forall_mem_append]
    exact ⟨consistent.original, forall_mem_singleton.mpr fitting.original⟩
  · rw [recorded, forall_mem_append]
    exact ⟨consistent.cost, forall_mem_singleton.mpr fitting.cost⟩
  · rw [recorded, used, forall_mem_append]
    refine ⟨fun other mem => ?_, forall_mem_singleton.mpr fitting.ended⟩
    exact Nat.le_add_right_of_le (consistent.bounded other mem)
  · intro executorKind other mem
    rw [scheduled, used]
    rcases queued executorKind other mem with before | ⟨rfl, begins⟩
    · obtain ⟨isScheduled, cost, ended⟩ := consistent.queued executorKind other before
      exact ⟨mem_append_left _ isScheduled, cost, Nat.le_add_right_of_le ended⟩
    · exact ⟨mem_append_right _ (mem_singleton_self _),
        (Program.costOf_eq fitting.cost).symm, Nat.add_le_add_right begins _⟩
  · intro other mem
    rcases prefetched other.opIdx (mem_map_of_mem mem) with before | ⟨same, isDataOp⟩
    · obtain ⟨found, foundMember, same⟩ := mem_map.mp before
      rw [← same]
      exact consistent.prefetched found foundMember
    · exact ⟨isDataOp, same ▸ fitting.original⟩
  · intro defined
    obtain ⟨begins, waits⟩ := fitting.waited defined
    have found : ∀ {begin : Nat} {dep : Nat}, (∃ other ∈ state.operationCycles,
        other.opIdx = dep ∧ other.getCycleEnd.toNat ≤ begin) →
        ∃ other ∈ after.operationCycles, other.opIdx = dep ∧ other.getCycleEnd.toNat ≤ begin :=
      fun ⟨other, mem, ends⟩ => ⟨other, kept other mem, ends⟩
    rw [used]
    intro other mem
    rw [recorded, mem_append, mem_singleton] at mem
    rcases mem with before | rfl
    · obtain ⟨ended, waited⟩ := consistent.waited defined other before
      exact ⟨Nat.le_add_right_of_le ended, fun dep isDep => found (waited dep isDep)⟩
    · exact ⟨Nat.add_le_add_right begins _, fun dep isDep => found (waits dep isDep)⟩

theorem Consistent.scheduleOp (begins : info.cycleBegin.toNat ≤ state.used) :
    Consistent prog prefetchOpsDefined (state.scheduleOp info) := by
  refine consistent.record fitting (State.recordCycles_of_new fitting.unscheduled) ?_
    fun opIdx mem => .inl mem
  intro executorKind other mem
  have updated : other ∈ update state.executorPipelineCycles info.executorKind
      (state.executorPipelineCycles info.executorKind ++ [info]) executorKind := mem
  by_cases same : executorKind = info.executorKind
  · rw [same, update_self, mem_append, mem_singleton] at updated
    rw [same]
    exact updated.imp_right fun isNew => ⟨isNew, begins⟩
  · rw [update_of_ne same] at updated
    exact .inl updated

theorem Consistent.schedulePrefetchOp (isDataOp : prog.isDataOp info.opIdx = true)
    (same : pipeline.map CycleInfo.opIdx = state.prefetchPipeline.map CycleInfo.opIdx) :
    Consistent prog prefetchOpsDefined
      ({ state with
        prefetchPipelineStalls := stalls, prefetchPipeline := pipeline }.schedulePrefetchOp
          info) := by
  refine consistent.record fitting ?_ (fun _ _ mem => .inl mem) ?_
  · exact State.recordCycles_of_new fitting.unscheduled
  · intro opIdx mem
    have added : opIdx ∈ (pipeline ++ [info]).map CycleInfo.opIdx := mem
    rw [map_append, mem_append, same, map_singleton, mem_singleton] at added
    exact added.imp_right fun isNew => ⟨isNew, isNew ▸ isDataOp⟩

end

end

/-! ### Subtractions -/

/-- No operation that is moved would begin before cycle zero. -/
def MovesExactly (fromCycle toCycle adjustCycles : UInt64) : List CycleInfo → Prop
  | [] => True
  | op :: earlier =>
    if op.getCycleEnd > toCycle then MovesExactly fromCycle toCycle adjustCycles earlier
    else if op.cycleBegin < fromCycle then True
    else adjustCycles ≤ op.cycleBegin ∧ MovesExactly fromCycle toCycle adjustCycles earlier

/-- No subtraction wraps around while stalls are eliminated, in so many turns. -/
def EliminatesExactly : Nat → Nat → List CycleInfo → List CycleInfo → UInt64 → UInt64 → Prop
  | fuel + 1, left + 1, stall :: earlier, pipeline, cyclesFreed, rangeEnd =>
    let adjusted := updatePrefetchPipeline stall.getCycleEnd rangeEnd cyclesFreed pipeline
    let cyclesLeft := cyclesFreed - stall.cycleCost
    MovesExactly stall.getCycleEnd rangeEnd cyclesFreed pipeline ∧ stall.cycleCost ≤ cyclesFreed ∧
      if cyclesLeft ≥ stall.cycleCost then
        EliminatesExactly fuel left earlier adjusted cyclesLeft stall.cycleBegin
      else EliminatesExactly fuel (left + 1) (stall :: earlier) adjusted cyclesLeft stall.cycleBegin
  | _, _, _, _, _, _ => True

/-- In no number of turns a subtraction wraps around. -/
def ReducesExactly (state : State) (targetRollback : UInt64) : Prop :=
  ∀ turns, let needed := stallsToEliminate targetRollback state.prefetchPipelineStalls.reverse 0
    EliminatesExactly turns needed.1 state.prefetchPipelineStalls.reverse
      state.prefetchPipeline.reverse (min needed.2 targetRollback) maxCycle

def stallCycles (stalls : List CycleInfo) : Nat :=
  (stalls.map fun stall => stall.cycleCost.toNat).sum

def Stalling (stalls : List CycleInfo) : Prop := ∀ stall ∈ stalls, 0 < stall.cycleCost

theorem stallsToEliminate_cycles (targetRollback : UInt64) (stalls : List CycleInfo)
    (cyclesFreed : UInt64) :
    (stallsToEliminate targetRollback stalls cyclesFreed).2.toNat ≤ cyclesFreed.toNat +
      stallCycles (stalls.take (stallsToEliminate targetRollback stalls cyclesFreed).1) := by
  induction stalls generalizing cyclesFreed with
  | nil => exact le_add_right _ _
  | cons stall earlier ih =>
    rw [stallsToEliminate]
    split
    · have sum := ih (cyclesFreed + stall.cycleCost)
      have wrapped : (cyclesFreed + stall.cycleCost).toNat ≤
          cyclesFreed.toNat + stall.cycleCost.toNat := by
        rw [UInt64.toNat_add]
        exact mod_le _ _
      dsimp only
      rw [take_succ_cons, stallCycles, map_cons, sum_cons]
      unfold stallCycles at sum
      omega
    · exact le_add_right _ _

variable {cyclesFreed : UInt64}

theorem not_eliminatesExactly (stalling : Stalling stalls) {left : Nat} (some : 0 < left)
    (enough : left ≤ stalls.length) {fuel : Nat} (turns : 2 * left ≤ fuel)
    (within : cyclesFreed.toNat ≤ stallCycles (stalls.take left)) (pipeline : List CycleInfo)
    (rangeEnd : UInt64) : ¬ EliminatesExactly fuel left stalls pipeline cyclesFreed rangeEnd := by
  induction stalls generalizing left fuel cyclesFreed pipeline rangeEnd with
  | nil => exact absurd enough some.not_ge
  | cons stall earlier ih =>
    obtain ⟨left, rfl⟩ := Nat.exists_eq_add_of_lt some
    obtain ⟨fuel, rfl⟩ : ∃ rest, fuel = rest + 2 := ⟨fuel - 2, by omega⟩
    rw [zero_add] at *
    rintro ⟨-, fits, later⟩
    have pos := UInt64.lt_iff_toNat_lt.mp (stalling stall mem_cons_self)
    have difference := UInt64.toNat_sub_of_le _ _ fits
    rw [take_succ_cons, stallCycles, map_cons, sum_cons] at within
    split at later
    · rename_i erased
      have rest := UInt64.le_iff_toNat_le.mp erased
      rcases Nat.eq_zero_or_pos left with rfl | more
      · rw [take_zero, map_nil, sum_nil] at within
        rw [UInt64.toNat_zero] at pos
        omega
      · refine ih (fun other mem => stalling other
          (mem_cons_of_mem _ mem)) more (le_of_succ_le_succ enough) (by omega) ?_ _ _
            later
        unfold stallCycles
        omega
    · rename_i again
      exact again later.2.1

theorem not_reducesExactly {state : State} (stalling : Stalling state.prefetchPipelineStalls)
    (some : state.prefetchPipelineStalls ≠ []) {targetRollback : UInt64}
    (requested : 0 < targetRollback) : ¬ ReducesExactly state targetRollback := by
  intro exact
  have cycles := stallsToEliminate_cycles targetRollback state.prefetchPipelineStalls.reverse 0
  have few := stallsToEliminate_le targetRollback state.prefetchPipelineStalls.reverse 0
  refine not_eliminatesExactly (fun stall mem => stalling stall (mem_reverse.mp mem)) ?_
    few le_rfl ?_ _ _ (exact _)
  · obtain ⟨stall, earlier, isReverse⟩ :=
      exists_cons_of_ne_nil (mt reverse_eq_nil_iff.mp some)
    rw [isReverse, stallsToEliminate, if_pos requested]
    exact succ_pos _
  · rw [UInt64.toNat_zero, zero_add] at cycles
    refine le_trans ?_ cycles
    rw [show ∀ first second : UInt64, min first second = if first ≤ second then first else second
      from fun _ _ => rfl]
    split
    · exact le_rfl
    · rename_i large
      exact (UInt64.lt_iff_toNat_lt.mp (UInt64.not_le.mp large)).le

/-! ### Runs -/

theorem eliminateStalls_suffix {fuel left : Nat}
    {rangeEnd : UInt64} {after : List CycleInfo × List CycleInfo}
    (res : eliminateStalls fuel left stalls pipeline cyclesFreed rangeEnd = .ok after) :
    after.1 <:+ stalls := by
  induction fuel generalizing left stalls pipeline cyclesFreed rangeEnd with
  | zero =>
    cases left with
    | zero =>
      cases res
      exact suffix_rfl
    | succ left => cases stalls <;> cases res
  | succ fuel ih =>
    cases left with
    | zero =>
      cases res
      exact suffix_rfl
    | succ left =>
      cases stalls with
      | nil => cases res
      | cons stall earlier =>
        rw [eliminateStalls] at res
        split at res
        · exact (ih res).trans (suffix_cons _ _)
        · exact ih res

namespace Program

variable {prog : Program} {state after : State} {opIdx : Nat}
  {optimalCycleEnd cycleCost : UInt64}

theorem schedulePrefetchDMA_stalling (stalling : Stalling state.prefetchPipelineStalls)
    (res : prog.schedulePrefetchDMA state opIdx optimalCycleEnd = .ok after) :
    Stalling after.prefetchPipelineStalls := by
  obtain ⟨cycleCost, -, res⟩ := bind_ok res
  dsimp only at res
  split at res
  · rename_i less
    cases res
    intro stall mem
    rcases mem_append.mp mem with old | new
    · exact stalling stall old
    · rw [mem_singleton.mp new]
      rw [sub_sub, add_comm cycleCost]
      have difference := UInt64.toNat_sub_of_le _ _ (UInt64.le_of_lt less)
      have apart := UInt64.lt_iff_toNat_lt.mp less
      rw [UInt64.lt_iff_toNat_lt, difference, UInt64.toNat_zero]
      exact Nat.sub_pos_of_lt apart
  · split at res
    · split at res
      · cases res
        exact stalling
      · obtain ⟨reduced, isReduced, res⟩ := bind_ok res
        obtain ⟨left, isLeft, isReduced⟩ := bind_ok isReduced
        cases isReduced
        cases res
        intro stall mem
        exact stalling stall (mem_reverse.mp
          ((eliminateStalls_suffix isLeft).subset (mem_reverse.mp mem)))
    · cases res
      exact stalling

variable (prog) in
/-- The FIFO after these operations were scheduled until their optimal ends. -/
def schedulePrefetchDMAs (calls : List (Nat × UInt64)) : Except Failure State :=
  calls.foldlM (fun state call => prog.schedulePrefetchDMA state call.1 call.2)
    ⟨[], [], [], fun _ => []⟩

variable (prog) in
/-- Every call is from a state, and for a cost and an optimal end, of which this holds. -/
def AtCalls (calls : List (Nat × UInt64)) (holds : State → State → UInt64 → UInt64 → Prop) : Prop :=
  ∀ (front : List (Nat × UInt64)) (opIdx : Nat) (optimalCycleEnd : UInt64)
    (rest : List (Nat × UInt64)) (state after : State) (cycleCost : UInt64),
    calls = front ++ (opIdx, optimalCycleEnd) :: rest →
    prog.schedulePrefetchDMAs front = .ok state →
    prog.getOperationCycleCost opIdx = .ok cycleCost →
    prog.schedulePrefetchDMA state opIdx optimalCycleEnd = .ok after →
      holds state after cycleCost optimalCycleEnd

end Program

/-- By how many cycles the operation would end too late. -/
def requestedRollback (state : State) (cycleCost optimalCycleEnd : UInt64) : Nat :=
  (state.getNextFreePrefetchCycle + cycleCost).toNat - optimalCycleEnd.toNat

/-- The operation begins at most so many cycles earlier. -/
structure MovedBack (rollback : Nat) (before now : CycleInfo) : Prop where
  opIdx : now.opIdx = before.opIdx
  cycleCost : now.cycleCost = before.cycleCost
  earlier : now.cycleBegin ≤ before.cycleBegin
  rollback : before.cycleBegin.toNat ≤ now.cycleBegin.toNat + rollback

/-- What a call is expected to do to the stalls and to the operations of the FIFO. -/
structure RollsBack (state after : State) (cycleCost optimalCycleEnd : UInt64) : Prop where
  exact : 0 < requestedRollback state cycleCost optimalCycleEnd →
    ReducesExactly state (state.getNextFreePrefetchCycle + cycleCost - optimalCycleEnd)
  moved : ∃ pipeline added, after.prefetchPipeline = pipeline ++ [added] ∧
    List.Forall₂ (MovedBack (requestedRollback state cycleCost optimalCycleEnd))
      state.prefetchPipeline pipeline
  stalls : 0 < requestedRollback state cycleCost optimalCycleEnd →
    stallCycles after.prefetchPipelineStalls +
        min (requestedRollback state cycleCost optimalCycleEnd)
          (stallCycles state.prefetchPipelineStalls) =
      stallCycles state.prefetchPipelineStalls

section

variable {prog : Program} {state after : State} {opIdx : Nat}
  {optimalCycleEnd cycleCost : UInt64}

theorem requestedRollback_pos :
    0 < requestedRollback state cycleCost optimalCycleEnd ↔
      optimalCycleEnd < state.getNextFreePrefetchCycle + cycleCost := by
  rw [UInt64.lt_iff_toNat_lt]
  exact Nat.sub_pos_iff_lt

theorem not_rollsBack (stalling : Stalling state.prefetchPipelineStalls)
    (some : state.prefetchPipelineStalls ≠ [])
    (requested : 0 < requestedRollback state cycleCost optimalCycleEnd) :
    ¬ RollsBack state after cycleCost optimalCycleEnd := by
  intro rolls
  have less := requestedRollback_pos.mp requested
  refine not_reducesExactly stalling some ?_ (rolls.exact requested)
  rw [UInt64.lt_iff_toNat_lt, UInt64.toNat_sub_of_le _ _ (UInt64.le_of_lt less)]
  exact requested

theorem rollsBack_of_idle (cost : prog.getOperationCycleCost opIdx = .ok cycleCost)
    (idle : requestedRollback state cycleCost optimalCycleEnd = 0 ∨
      state.prefetchPipelineStalls = [])
    (res : prog.schedulePrefetchDMA state opIdx optimalCycleEnd = .ok after) :
    RollsBack state after cycleCost optimalCycleEnd := by
  have unmoved : List.Forall₂ (MovedBack (requestedRollback state cycleCost optimalCycleEnd))
      state.prefetchPipeline state.prefetchPipeline :=
    forall₂_same.mpr fun op _ => ⟨rfl, rfl, UInt64.le_refl _, le_add_right _ _⟩
  unfold Program.schedulePrefetchDMA at res
  rw [ok_bind cost] at res
  by_cases requested : 0 < requestedRollback state cycleCost optimalCycleEnd
  · have none := idle.resolve_left requested.ne'
    have less := requestedRollback_pos.mp requested
    rw [if_neg (UInt64.lt_asymm less), if_pos less, none] at res
    cases res
    refine ⟨fun _ => ?_, ⟨_, _, rfl, unmoved⟩, fun _ => ?_⟩
    · intro turns
      rw [none]
      cases turns <;> exact trivial
    · show stallCycles state.prefetchPipelineStalls + _ = _
      rw [none]
      exact (zero_add _).trans (min_zero _)
  · refine ⟨fun impossible => absurd impossible requested, ?_,
      fun impossible => absurd impossible requested⟩
    dsimp only at res
    split at res
    · cases res
      exact ⟨_, _, rfl, unmoved⟩
    · rw [if_neg (mt requestedRollback_pos.mpr requested)] at res
      cases res
      exact ⟨_, _, rfl, unmoved⟩

/-- A run rolls back as expected exactly when no call needs the cycles of a stall. -/
theorem schedulePrefetchDMAs_rollsBack_iff (prog : Program) (calls : List (Nat × UInt64)) :
    prog.AtCalls calls RollsBack ↔
      prog.AtCalls calls fun state _ cycleCost optimalCycleEnd =>
        requestedRollback state cycleCost optimalCycleEnd = 0 ∨
          state.prefetchPipelineStalls = [] := by
  constructor
  · intro rolls front opIdx optimalCycleEnd rest state after cycleCost split ran cost res
    have stalling : Stalling state.prefetchPipelineStalls := by
      have kept : Run.Preserves (fun state : State => Stalling state.prefetchPipelineStalls)
          fun state => front.foldlM
            (fun state call => prog.schedulePrefetchDMA state call.1 call.2) state :=
        Run.Preserves.foldlM front fun call _ before later stalling res =>
          Program.schedulePrefetchDMA_stalling stalling res
      exact kept _ state (fun _ impossible => absurd impossible not_mem_nil) ran
    by_contra both
    obtain ⟨requested, some⟩ := not_or.mp both
    exact not_rollsBack stalling some (pos_of_ne_zero requested)
      (rolls front opIdx optimalCycleEnd rest state after cycleCost split ran cost res)
  · intro idle front opIdx optimalCycleEnd rest state after cycleCost split ran cost res
    exact rollsBack_of_idle cost
      (idle front opIdx optimalCycleEnd rest state after cycleCost split ran cost res) res

end

/-- Both operations take five cycles. -/
def twoTransfers : Program where
  opCount := 2
  getOpDeps _ := []
  isDataOp _ := true
  scheduledOps := [⟨0, .originalOp, 0, 5, .dmaNN⟩, ⟨1, .originalOp, 5, 10, .dmaNN⟩]
  op_lt := by decide

/-- The second operation needs four of the fifteen cycles in which the FIFO is stalled. -/
theorem twoTransfers_not_rollsBack : ¬ twoTransfers.AtCalls [(0, 20), (1, 21)] RollsBack := by
  intro rolls
  let stalled : State := ⟨[⟨0, 15, 5, .dmaNN⟩], [⟨cycleInfoStallDummyOp, 0, 15, .dmaNN⟩],
    [⟨0, 15, 5, .dmaNN⟩], fun _ => []⟩
  have ran : twoTransfers.schedulePrefetchDMAs [(0, 20)] = .ok stalled := rfl
  have cost : twoTransfers.getOperationCycleCost 1 = .ok 5 := rfl
  obtain ⟨stalls, pipeline, reduced, -⟩ := reducePrefetchPipelineStalls_ok stalled
    (stalled.getNextFreePrefetchCycle + 5 - 21)
  obtain ⟨after, res⟩ : ∃ after, twoTransfers.schedulePrefetchDMA stalled 1 21 = .ok after := by
    unfold Program.schedulePrefetchDMA
    rw [ok_bind cost]
    rw [if_neg (show ¬ stalled.getNextFreePrefetchCycle + 5 < 21 from
        (by decide : ¬ (20 : UInt64) + 5 < 21)),
      if_pos (show stalled.getNextFreePrefetchCycle + 5 > 21 from
        (by decide : (20 : UInt64) + 5 > 21)),
      if_neg (show ¬ stalled.prefetchPipelineStalls.isEmpty = true from Bool.false_ne_true),
      ok_bind reduced]
    exact ⟨_, rfl⟩
  refine @not_rollsBack stalled _ 21 5 ?_ (cons_ne_nil _ _) ?_
    (rolls [(0, 20)] 1 21 [] stalled after 5 rfl ran cost res)
  · intro stall mem
    rw [mem_singleton.mp mem]
    exact (show (0 : UInt64) < 15 by decide)
  · exact (show 0 < ((20 : UInt64) + 5).toNat - 21 by decide)

end NpuPlugin.PrefetchDataOps
