/-
This file gives the data of a schedule: the buffers of a function as the scheduler reads them, and
the operations of its result.
-/

import Mathlib.Tactic.Common

namespace NpuPlugin.FeasibleMemoryScheduler

/-! ### The buffers -/

inductive MemoryKind
  | ddr
  | csram
  | cmxUpa
  | cmxNN
  | register
deriving DecidableEq, Repr

inductive ExecutorKind
  | dmaNN
  | nce
  | dpu
  | shaveUpa
  | shaveNN
  | shaveAct
  | m2i
  | unknown
deriving DecidableEq, Repr

/-- A buffer of the memory to allocate, with what the scheduler reads of its allocation and its
type: where its allocation stands in the block, its size and alignment, whether a transfer of it
needs all ports (`areMultipleDmaPortsNeeded`), whether a `ConcatViewOp` uses it, the cost of a
spill (`getDMACost`), and its users that are no `async.execute`. -/
structure Buffer where
  position : Nat
  size : Nat
  alignment : Nat
  multipleDmaPortsNeeded : Bool
  usedByConcatView : Bool
  dmaCost : Nat
  otherUsers : Nat
  size_pos : 0 < size
  alignment_pos : 0 < alignment

instance Buffer.decidableEq : DecidableEq Buffer := fun first second =>
  decidable_of_iff (first.position = second.position ∧ first.size = second.size ∧
      first.alignment = second.alignment ∧
      first.multipleDmaPortsNeeded = second.multipleDmaPortsNeeded ∧
      first.usedByConcatView = second.usedByConcatView ∧ first.dmaCost = second.dmaCost ∧
      first.otherUsers = second.otherUsers)
    (by
      cases first
      cases second
      simp only [Buffer.mk.injEq])

/-- `LinearScanHandler`, with a mark that a callback threw: what throws ends the scheduler, so a
marked handler is never used. -/
structure LinearScanHandler where
  valOffsets : Buffer → Option Nat
  aliveValues : List Buffer
  dynamicSpillValues : List Buffer
  maxAllocatedSize : Nat
  threw : Bool

/-! ### The result -/

inductive EOpType
  | originalOp
  | originalPrefetchedOp
  | originalSpillReadOp
  | originalSpillWriteOp
  | implicitSpillReadOp
  | implicitSpillWriteOp
  | implicitSpillWriteFragOp
deriving DecidableEq, Repr

structure QueueType where
  execKind : ExecutorKind
  id : Nat
deriving DecidableEq, Repr

/-- The addresses `[begin, end)` of a buffer. -/
structure IntervalInfo where
  begin_ : Nat
  end_ : Nat
  buffer : Buffer
deriving DecidableEq

structure ScheduledOpInfo where
  op : Nat
  opType : EOpType
  cycleBegin : Nat
  cycleEnd : Nat
  freeCmx : Nat
  isDataOp : Bool
  inputResourceInfo : List IntervalInfo
  outputResourceInfo : List IntervalInfo
  queueType : QueueType
  executorInstanceMask : List Nat
deriving DecidableEq

namespace ScheduledOpInfo

def isOriginalOp (info : ScheduledOpInfo) : Bool :=
  info.opType = .originalOp || info.opType = .originalPrefetchedOp ||
    info.opType = .originalSpillWriteOp || info.opType = .originalSpillReadOp

def isSpillWrite (info : ScheduledOpInfo) : Bool :=
  info.opType = .implicitSpillWriteOp || info.opType = .implicitSpillWriteFragOp

end ScheduledOpInfo

end NpuPlugin.FeasibleMemoryScheduler
