/-
This file gives what the spilling optimisations read and change, the optimisation that relocates
the outputs of compute operations instead of spilling them, and the entries of one data operation:
an `ORIGINAL`, then spill writes and spill reads in turn.
-/

import NpuPlugin.FeasibleMemoryScheduler.State
import NpuPlugin.Library.Erasure
import NpuPlugin.Library.Loop

namespace NpuPlugin.FeasibleMemorySchedulerSpilling

open FeasibleMemoryScheduler List Option

/-! ### Values and operations -/

/-- A value of the function: a buffer, a result of the body of an operation, or another one. -/
inductive Value
  | buffer (buffer : Buffer)
  | bodyResult (opIdx number : Nat)
  | other (number : Nat)
deriving DecidableEq

/-- The types of values, as far as they are told apart: an `NDTypeInterface` with its memory and
its compact size, an asynchronous value of one, or another type. -/
inductive ValueType
  | ndType (memoryKind : MemoryKind) (compactSize : Nat)
  | asyncValue (memoryKind : Option MemoryKind)
  | other
deriving DecidableEq, Repr

def ValueType.getMemoryKind : ValueType → Option MemoryKind
  | .ndType memoryKind _ => some memoryKind
  | _ => none

def ValueType.bufferMemoryKind : ValueType → Option MemoryKind
  | .ndType memoryKind _ => some memoryKind
  | .asyncValue memoryKind => memoryKind
  | .other => none

def ValueType.getCompactSize : ValueType → Option Nat
  | .ndType _ compactSize => some compactSize
  | _ => none

/-- An operation in the body of an `async.execute`. The outputs of a layer are some of its
operands, so they are given by their places among the operands. -/
structure InnerOp where
  isPureViewOp : Bool
  isLayerOp : Bool
  isNCEClusterTask : Bool
  isInplace : Bool
  operands : List Value
  outputPositions : List Nat
  results : List Value
deriving DecidableEq

def InnerOp.getOutputs (op : InnerOp) : List Value :=
  op.outputPositions.filterMap fun position => op.operands[position]?

/-- An `async.execute` operation. -/
structure ExecuteOp where
  operands : List Value
  body : List InnerOp
  resultCount : Nat
deriving DecidableEq

/-- `getBodyResults` of the operation with the given index. -/
def ExecuteOp.getBodyResults (execOp : ExecuteOp) (opIdx : Nat) : List Value :=
  (List.range execOp.resultCount).map (.bodyResult opIdx)

/-- `getExecInnerOp`, by the place of the operation in the body. -/
def ExecuteOp.getExecInnerOp (execOp : ExecuteOp) : Option Nat :=
  execOp.body.findIdx? fun op => !op.isPureViewOp

/-! ### Aliases -/

/-- `AliasesInfo`, with the order in which a set of values is traversed. -/
structure AliasesInfo where
  memKind : MemoryKind
  roots : Value → Option (List Value)
  allAliases : Value → Option (List Value)
  traversal : List Value → List Value

namespace AliasesInfo

/-- Inserts in a set. -/
def insertValue (values : List Value) (value : Value) : List Value :=
  if value ∈ values then values else values ++ [value]

/-- `getRoots` of a value that has to have a single one. -/
def getSingleRoot (info : AliasesInfo) (value : Value) : Option Value :=
  match info.roots value with
  | some [root] => some root
  | _ => none

def addAlias (info : AliasesInfo) (types : Value → ValueType) (source target : Value) :
    Option AliasesInfo :=
  if (types source).bufferMemoryKind ≠ some info.memKind ∨
      (types target).bufferMemoryKind ≠ some info.memKind then some info
  else
    (if source = target then some [target] else info.roots source).map fun roots =>
      { info with
        roots := Function.update info.roots target
          (some (roots.foldl insertValue ((info.roots target).getD [])))
        allAliases := roots.foldl (fun allAliases root => Function.update allAliases root
          (some (insertValue ((allAliases root).getD []) target))) info.allAliases }

def removeAlias (info : AliasesInfo) (target : Value) : Option AliasesInfo :=
  (info.roots target).map fun roots =>
    { info with
      roots := Function.update info.roots target none
      allAliases := roots.foldl (fun allAliases root => Function.update allAliases root
        (some (((allAliases root).getD []).erase target))) info.allAliases }

end AliasesInfo

/-! ### Entries of the schedule -/

def isSpillRead (info : ScheduledOpInfo) : Bool := info.opType = .implicitSpillReadOp

def isActive (resource : IntervalInfo) : Bool := resource.begin_ ≤ resource.end_

def hasActiveInputResource (info : ScheduledOpInfo) : Bool := info.inputResourceInfo.any isActive

def hasActiveOutputResource (info : ScheduledOpInfo) : Bool := info.outputResourceInfo.any isActive

/-- The last address of a range, in 64 bits. -/
def lastAddress (resource : IntervalInfo) : Nat := (resource.end_ + 2 ^ 64 - 1) % 2 ^ 64

/-- The test for two ranges that meet. -/
def rangesMeet (resource spilled : IntervalInfo) : Bool :=
  let beg := resource.begin_
  let end_ := lastAddress resource
  let resBegin := spilled.begin_
  let resEnd := lastAddress spilled
  (beg ≤ resBegin && resEnd ≤ end_) || (resBegin ≤ beg && beg ≤ resEnd) ||
    (resBegin ≤ end_ && end_ ≤ resEnd)

/-- What the optimisations work on beside the schedule: the operations by their indexes, the types
of their values, the aliases, the addresses, and the place of the next allocation. -/
structure Context where
  memKind : MemoryKind
  execOps : List ExecuteOp
  types : Value → ValueType
  aliasInfo : AliasesInfo
  handler : LinearScanHandler
  nextPosition : Nat

/-! ### Searching a relocation -/

/-- The search for the `ORIGINAL` of a spill write, from the entry `i - 1` down. It returns its
place, when it stands in the closest cycle before, and the first place of that cycle. -/
def findOriginal (scheduledOps : List ScheduledOpInfo) (spillWrite : ScheduledOpInfo) :
    Nat → Option Nat → Option Nat → Option Nat × Nat
  | 0, _, origOpIndex => (origOpIndex, 0)
  | i + 1, prevTime, origOpIndex =>
    match scheduledOps[i]? with
    | none => (origOpIndex, 0)
    | some info =>
      match prevTime.or
          (if info.cycleBegin < spillWrite.cycleBegin then some info.cycleBegin else none) with
      | none => findOriginal scheduledOps spillWrite i none origOpIndex
      | some time =>
        if info.cycleBegin < time then (origOpIndex, i + 1)
        else findOriginal scheduledOps spillWrite i (some time)
          (if info.op = spillWrite.op && info.isOriginalOp then some i else origOpIndex)

/-- The search for the `SPILL_READ` of a spill write among the entries after it, with their
places: the first entry of its operation in the closest cycle after. -/
def findSpillRead (spillWrite : ScheduledOpInfo) :
    List (ScheduledOpInfo × Nat) → Option Nat → Option Nat
  | [], _ => none
  | (info, i) :: rest, nextTime =>
    match nextTime.or
        (if spillWrite.cycleBegin < info.cycleBegin then some info.cycleBegin else none) with
    | none => findSpillRead spillWrite rest none
    | some time =>
      if time < info.cycleBegin then none
      else if info.op = spillWrite.op then some i
      else findSpillRead spillWrite rest (some time)

variable (context : Context) (scheduledOps : List ScheduledOpInfo)

/-- A range that an entry between the `ORIGINAL` and the `SPILL_READ` uses, the output that is
spilled apart. -/
def isRangeUsed (prevTimeFirstOpIndex spillWriteIndex origOpIndex spillReadIndex : Nat)
    (spilled : IntervalInfo) : Bool :=
  scheduledOps.zipIdx.any fun (info, i) =>
    prevTimeFirstOpIndex ≤ i && i < spillReadIndex && i ≠ spillWriteIndex &&
      ((hasActiveInputResource info && info.inputResourceInfo.any (rangesMeet · spilled)) ||
        (hasActiveOutputResource info && info.outputResourceInfo.any fun resource =>
          !(i = origOpIndex && resource.buffer = spilled.buffer) && rangesMeet resource spilled))

/-- Whether the outputs of a layer cover the spilled buffer. The first one in it decides. -/
def layerOwnsBuffer (context : Context) (spillBuf : Buffer) : List Value → Option Bool
  | [] => some true
  | output :: outputs =>
    if (context.types output).getMemoryKind ≠ some context.memKind then
      layerOwnsBuffer context spillBuf outputs
    else (context.aliasInfo.getSingleRoot output).bind fun rootBuffer =>
      if rootBuffer ≠ .buffer spillBuf then layerOwnsBuffer context spillBuf outputs
      else (context.types rootBuffer).getCompactSize.bind fun rootSize =>
        (context.types output).getCompactSize.map fun size => decide (rootSize = size)

/-- `operationOwnsBuffer`: no layer of the operation writes just to a part of the buffer. -/
def operationOwnsBuffer (spillBuf : Buffer) (execOp : ExecuteOp) : Option Bool :=
  execOp.body.foldlM (fun owns op =>
    if op.isLayerOp then
      (layerOwnsBuffer context spillBuf op.getOutputs).map fun layerOwns => owns && layerOwns
    else some owns) true

/-- Whether a result has the given buffer as its only root. -/
def anyResultRootedAt (context : Context) (root : Value) : List Value → Option Bool
  | [] => some false
  | output :: outputs =>
    (context.aliasInfo.roots output).bind fun roots =>
      if roots = [root] then some true else anyResultRootedAt context root outputs

/-- Whether another operation, which is over when the `ORIGINAL` begins, writes to the buffer. The
index of an operation is used as a place of the schedule here. -/
def anySharedOutput (context : Context) (scheduledOps : List ScheduledOpInfo)
    (origOp : ScheduledOpInfo) (root : Value) : List Value → Option Bool
  | [] => some false
  | .bodyResult inputSchedId _ :: aliases =>
    if inputSchedId = origOp.op then anySharedOutput context scheduledOps origOp root aliases
    else scheduledOps[inputSchedId]?.bind fun input =>
      if origOp.cycleBegin < input.cycleEnd then
        anySharedOutput context scheduledOps origOp root aliases
      else context.execOps[inputSchedId]?.bind fun inputExecOp =>
        inputExecOp.getExecInnerOp.bind fun inner => inputExecOp.body[inner]?.bind fun innerOp =>
          (anyResultRootedAt context root innerOp.results).bind fun shared =>
            if shared then some true
            else anySharedOutput context scheduledOps origOp root aliases
  | _ :: aliases => anySharedOutput context scheduledOps origOp root aliases

def hasSharedOutputBuffer (origOp : ScheduledOpInfo) (spillBuf : Buffer) : Option Bool :=
  (context.aliasInfo.getSingleRoot (.buffer spillBuf)).bind fun root =>
    (context.aliasInfo.allAliases root).bind fun aliases =>
      anySharedOutput context scheduledOps origOp root (context.aliasInfo.traversal aliases)

/-! ### Relocating -/

def InnerOp.replaceOperand (op : InnerOp) (old new : Value) : InnerOp :=
  { op with
    isInplace := op.isInplace && !op.isNCEClusterTask
    operands := op.operands.map fun operand => if operand = old then new else operand }

/-- The new buffer of an operation that worked in place, in the context. -/
def createBuffer (opIdx : Nat) (spillBuf : Buffer) (address : Nat) : Option (Context × Buffer) :=
  context.execOps[opIdx]?.bind fun execOp =>
    execOp.getExecInnerOp.bind fun inner => execOp.body[inner]?.bind fun innerOp =>
      let newBuffer := { spillBuf with position := context.nextPosition }
      let newValue := Value.buffer newBuffer
      let types := Function.update context.types newValue (context.types (.buffer spillBuf))
      let newOp := innerOp.replaceOperand (.buffer spillBuf) newValue
      innerOp.results.head?.bind fun innerResult =>
      (execOp.getBodyResults opIdx).head?.bind fun bodyResult =>
      (context.aliasInfo.removeAlias innerResult).bind fun aliasInfo =>
      (aliasInfo.removeAlias bodyResult).bind fun aliasInfo =>
      (aliasInfo.addAlias types newValue newValue).bind fun aliasInfo =>
      (aliasInfo.addAlias types newValue bodyResult).bind fun aliasInfo =>
      (aliasInfo.addAlias types newValue innerResult).map fun aliasInfo =>
        ({ context with
            execOps := context.execOps.set opIdx
              { execOp with body := execOp.body.set inner newOp }
            types := types
            aliasInfo := aliasInfo
            handler := { context.handler with
              valOffsets := Function.update context.handler.valOffsets newBuffer (some address) }
            nextPosition := context.nextPosition + 1 }, newBuffer)

/-- Gives the spilled output of the `ORIGINAL` the range of the `SPILL_READ`, unless its buffer is
shared. The result says whether it did; without the output it throws. -/
def relocateOutput (origOp : ScheduledOpInfo) (spilled : IntervalInfo)
    (shared : Bool) : Option (Context × ScheduledOpInfo × Bool) :=
  (origOp.outputResourceInfo.findIdx? fun resource => resource.buffer = spilled.buffer).bind
    fun i =>
      if origOp.inputResourceInfo.any fun resource => resource.buffer = spilled.buffer then
        (createBuffer context origOp.op spilled.buffer spilled.begin_).map
          fun (context, newBuffer) =>
            (context, { origOp with
              outputResourceInfo := origOp.outputResourceInfo.set i
                { spilled with buffer := newBuffer } }, true)
      else if shared then some (context, origOp, false)
      else some (context, { origOp with
        outputResourceInfo := origOp.outputResourceInfo.set i spilled }, true)

/-- A pair of entries to remove. -/
structure RelocationPair where
  spillWriteIndex : Nat
  spillReadIndex : Nat
deriving DecidableEq, Repr

/-- The state of the search. -/
structure RelocationState where
  context : Context
  scheduledOps : List ScheduledOpInfo
  pairs : List RelocationPair

/-- What is done for the entry `opIndex` of a compute operation that is spilled, once its
`ORIGINAL` and its `SPILL_READ` are found. -/
def relocatePair (state : RelocationState) (spillWriteIndex origOpIndex prevTimeFirstOpIndex
    spillReadIndex : Nat) : Option RelocationState :=
  state.scheduledOps[origOpIndex]?.bind fun origOp =>
  state.scheduledOps[spillReadIndex]?.bind fun spillReadOp =>
  spillReadOp.outputResourceInfo.head?.bind fun spilled =>
    if isRangeUsed state.scheduledOps prevTimeFirstOpIndex spillWriteIndex origOpIndex
        spillReadIndex spilled then some state
    else state.context.execOps[origOp.op]?.bind fun origExecOp =>
      (operationOwnsBuffer state.context spilled.buffer origExecOp).bind fun owns =>
        if !owns then some state
        else (hasSharedOutputBuffer state.context state.scheduledOps origOp spilled.buffer).bind
          fun shared => (relocateOutput state.context origOp spilled shared).map
            fun (context, origOp, removeSpillOps) =>
              { context := context
                scheduledOps := state.scheduledOps.set origOpIndex origOp
                pairs := if removeSpillOps
                  then state.pairs ++ [⟨spillWriteIndex, spillReadIndex⟩] else state.pairs }

/-- The iteration for the entry `opIndex`. -/
def relocate (state : RelocationState) (opIndex : Nat) : Option RelocationState :=
  state.scheduledOps[opIndex]?.bind fun spillWriteOp =>
    if spillWriteOp.isSpillWrite && !spillWriteOp.isDataOp then
      state.context.execOps[spillWriteOp.op]?.bind fun execOp =>
        if 1 < execOp.resultCount then some state
        else match findOriginal state.scheduledOps spillWriteOp opIndex none none with
          | (none, _) => some state
          | (some origOpIndex, prevTimeFirstOpIndex) =>
            match findSpillRead spillWriteOp
                (state.scheduledOps.zipIdx.drop (opIndex + 1)) none with
            | none => some state
            | some spillReadIndex =>
              relocatePair state opIndex origOpIndex prevTimeFirstOpIndex spillReadIndex
    else some state

/-- The search: what `removeComputeOpRelocationSpills` does before it removes entries. -/
def findRelocations :
    Option RelocationState :=
  (List.range scheduledOps.length).foldlM relocate ⟨context, scheduledOps, []⟩

def operationIndexesToRemove (pairs : List RelocationPair) : List Nat :=
  pairs.flatMap fun pair => [pair.spillWriteIndex, pair.spillReadIndex]

/-- `removeComputeOpRelocationSpills`: the indexes are erased from the last one found on. -/
def removeComputeOpRelocationSpills :
    Option (Context × List ScheduledOpInfo) :=
  (findRelocations context scheduledOps).bind fun state =>
    (eraseEach (operationIndexesToRemove state.pairs).reverse state.scheduledOps).map
      fun scheduledOps => (state.context, scheduledOps)

/-! ### Spills of data operations -/

/-- `dataOpSpillTree`: the places of the entries of data operations that are spilled. -/
abbrev SpillTree := List (Nat × List Nat)

def findOrigOp (scheduledOps : List ScheduledOpInfo) (op : Nat) : Nat → Option Nat
  | 0 => none
  | i + 1 =>
    if scheduledOps[i]?.any fun info => info.isOriginalOp && info.op = op then some i
    else findOrigOp scheduledOps op i

/-- Adds the entry `opIndex` to the tree when it is a spill of a data operation. -/
def insertSpill (tree : SpillTree) (opIndex : Nat) : Option SpillTree :=
  scheduledOps[opIndex]?.bind fun info =>
    if (info.isSpillWrite || isSpillRead info) && info.isDataOp then
      context.execOps[info.op]?.bind fun execOp =>
        if 1 < execOp.resultCount then some tree
        else if tree.any fun dataOp => dataOp.1 = info.op then
          some (tree.map fun dataOp =>
            if dataOp.1 = info.op then (dataOp.1, dataOp.2 ++ [opIndex]) else dataOp)
        else (findOrigOp scheduledOps info.op opIndex).map fun origOpIndex =>
          tree ++ [(info.op, [origOpIndex, opIndex])]
    else some tree

def isUsedAsArgument (context : Context) (buffer : Buffer) : List Value → Option Bool
  | [] => some false
  | operand :: operands =>
    if context.types operand ≠ .asyncValue (some context.memKind) then
      isUsedAsArgument context buffer operands
    else (context.aliasInfo.getSingleRoot operand).bind fun root =>
      if root = .buffer buffer then some true else isUsedAsArgument context buffer operands

def isUsedAsResult (context : Context) (buffer : Buffer) : List Value → Option Bool
  | [] => some false
  | res :: results =>
    if (context.types res).bufferMemoryKind ≠ some context.memKind then
      isUsedAsResult context buffer results
    else (context.aliasInfo.getSingleRoot res).bind fun root =>
      if root = .buffer buffer then some true else isUsedAsResult context buffer results

/-- `isBufferUsedAsArgument` and `isBufferUsedAsResult` for the operations of some entries. -/
def findBufferUses (context : Context) (buffer : Buffer) :
    List ScheduledOpInfo → Bool × Bool → Option (Bool × Bool)
  | [], used => some used
  | info :: infos, used =>
    context.execOps[info.op]?.bind fun execOp =>
    (isUsedAsArgument context buffer execOp.operands).bind fun asArgument =>
    (isUsedAsResult context buffer (execOp.getBodyResults info.op)).bind fun asResult =>
      let used := (used.1 || asArgument, used.2 || asResult)
      if used.1 && used.2 then some used else findBufferUses context buffer infos used

/-- Gives the next `SPILL_READ` among the places the type of the `ORIGINAL` that is removed. -/
def promoteNextSpillRead (opType : EOpType) :
    List Nat → List ScheduledOpInfo → List ScheduledOpInfo
  | [], scheduledOps => scheduledOps
  | place :: places, scheduledOps =>
    if scheduledOps[place]?.any isSpillRead then
      scheduledOps.modify place fun info => { info with opType := opType }
    else promoteNextSpillRead opType places scheduledOps

/-- The iterations for the entries of one data operation, with the indexes to remove so far. -/
def optimizeDataOp (context : Context) :
    List Nat → List ScheduledOpInfo → List Nat → Option (List ScheduledOpInfo × List Nat)
  | idx :: next :: rest, scheduledOps, removed =>
    scheduledOps[idx]?.bind fun info => scheduledOps[next]?.bind fun nextInfo =>
      if info.isSpillWrite || !nextInfo.isSpillWrite then
        optimizeDataOp context (next :: rest) scheduledOps removed
      else if ¬ idx < next then none
      else info.outputResourceInfo.head?.bind fun resource =>
        (findBufferUses context resource.buffer ((scheduledOps.take next).drop (idx + 1))
          (false, false)).bind fun used =>
            if used.1 || used.2 then optimizeDataOp context (next :: rest) scheduledOps removed
            else optimizeDataOp context (next :: rest)
              (if info.isOriginalOp then promoteNextSpillRead info.opType rest scheduledOps
                else scheduledOps) (removed ++ [idx, next])
  | _, scheduledOps, removed => some (scheduledOps, removed)

/-- `optimizeDataOpsSpills`. The order in which the tree is traversed is not known, so it is part
of the input. -/
def optimizeDataOpsSpills (hashOrder : SpillTree → SpillTree)
    (scheduledOps : List ScheduledOpInfo) : Option (List ScheduledOpInfo) :=
  ((List.range scheduledOps.length).foldlM (insertSpill context scheduledOps) []).bind fun tree =>
    ((hashOrder tree).foldlM (fun state dataOp =>
      optimizeDataOp context dataOp.2 state.1 state.2) (scheduledOps, [])).bind fun state =>
        eraseEach (state.2.mergeSort (· ≤ ·)).reverse state.1

/-- A spill write with the operation and the buffer of one before it. -/
def isSpillWriteDuplicate (earlier : List ScheduledOpInfo) (info : ScheduledOpInfo) : Bool :=
  info.isSpillWrite && earlier.any fun other => other.isSpillWrite && other.op = info.op &&
    other.inputResourceInfo.head?.map IntervalInfo.buffer =
      info.inputResourceInfo.head?.map IntervalInfo.buffer

/-- The entries without duplicates, after the given ones. -/
def withoutDuplicates (earlier : List ScheduledOpInfo) :
    List ScheduledOpInfo → List ScheduledOpInfo
  | [] => []
  | info :: infos =>
    if isSpillWriteDuplicate earlier info then withoutDuplicates (earlier ++ [info]) infos
    else info :: withoutDuplicates (earlier ++ [info]) infos

def removeRedundantSpillWrites : List ScheduledOpInfo := withoutDuplicates [] scheduledOps

/-! ### Chains of entries -/

/-- Spill reads and spill writes in turn, from a spill read on. -/
def IsReadChain : List ScheduledOpInfo → Prop
  | [] => True
  | [spillRead] => isSpillRead spillRead = true
  | spillRead :: spillWrite :: rest =>
    isSpillRead spillRead = true ∧ spillWrite.isSpillWrite = true ∧ IsReadChain rest

/-- An `ORIGINAL`, then spill writes and spill reads in turn. -/
def IsDataChain : List ScheduledOpInfo → Prop
  | [] => True
  | [original] => original.isOriginalOp = true
  | original :: spillWrite :: rest =>
    original.isOriginalOp = true ∧ spillWrite.isSpillWrite = true ∧ IsReadChain rest

def StandAt (scheduledOps : List ScheduledOpInfo) (places : List Nat)
    (chain : List ScheduledOpInfo) : Prop :=
  List.Forall₂ (fun place info => scheduledOps[place]? = some info) places chain

/-- An entry after the optimisation: a spill read of a data operation may have become an
`ORIGINAL`. -/
def Promoted (info after : ScheduledOpInfo) : Prop :=
  after = info ∨ info.isDataOp = true ∧ isSpillRead info = true ∧ after.isOriginalOp = true ∧
    after = { info with opType := after.opType }

variable {info : ScheduledOpInfo}

theorem not_isSpillRead_of_isOriginalOp (isOriginal : info.isOriginalOp = true) :
    isSpillRead info = false := by
  simp only [isSpillRead, ScheduledOpInfo.isOriginalOp] at isOriginal ⊢
  cases kind : info.opType <;> simp [kind] at isOriginal ⊢

theorem not_isSpillWrite_of_isOriginalOp (isOriginal : info.isOriginalOp = true) :
    info.isSpillWrite = false := by
  simp only [ScheduledOpInfo.isSpillWrite, ScheduledOpInfo.isOriginalOp] at isOriginal ⊢
  cases kind : info.opType <;> simp [kind] at isOriginal ⊢

theorem not_isSpillWrite_of_isSpillRead (isRead : isSpillRead info = true) :
    info.isSpillWrite = false := by
  simp only [isSpillRead, ScheduledOpInfo.isSpillWrite] at isRead ⊢
  cases kind : info.opType <;> simp [kind] at isRead ⊢

theorem not_isOriginalOp_of_isSpillRead (isRead : isSpillRead info = true) :
    info.isOriginalOp = false := by
  simp only [isSpillRead, ScheduledOpInfo.isOriginalOp] at isRead ⊢
  cases kind : info.opType <;> simp [kind] at isRead ⊢

namespace Promoted

variable {info after final : ScheduledOpInfo}

theorem refl (info : ScheduledOpInfo) : Promoted info info := .inl rfl

theorem same (promoted : Promoted info after) : after = { info with opType := after.opType } := by
  rcases promoted with rfl | ⟨-, -, -, same⟩
  · rfl
  · exact same

section

variable (promoted : Promoted info after)
include promoted

theorem op : after.op = info.op := by rw [promoted.same]

theorem isDataOp : after.isDataOp = info.isDataOp := by rw [promoted.same]

theorem outputResourceInfo : after.outputResourceInfo = info.outputResourceInfo := by
  rw [promoted.same]

theorem isSpillWrite : after.isSpillWrite = info.isSpillWrite := by
  rcases promoted with rfl | ⟨-, isRead, isOriginal, -⟩
  · rfl
  · rw [not_isSpillWrite_of_isSpillRead isRead, not_isSpillWrite_of_isOriginalOp isOriginal]

theorem trans (again : Promoted after final) : Promoted info final := by
  rcases promoted with rfl | ⟨data, isRead, isOriginal, same⟩
  · exact again
  · rcases again with rfl | ⟨-, isRead', -, -⟩
    · exact .inr ⟨data, isRead, isOriginal, same⟩
    · rw [not_isSpillRead_of_isOriginalOp isOriginal] at isRead'
      exact absurd isRead' (by simp)

end

end Promoted

/-! ### Uses of a buffer -/

/-- The operation has the buffer as the root of an asynchronous operand or of a result. -/
def UsesBuffer (context : Context) (op : Nat) (buffer : Buffer) : Prop :=
  ∃ execOp, context.execOps[op]? = some execOp ∧
    ((∃ operand ∈ execOp.operands, context.types operand = .asyncValue (some context.memKind) ∧
        context.aliasInfo.getSingleRoot operand = some (.buffer buffer)) ∨
      ∃ res ∈ execOp.getBodyResults op,
        (context.types res).bufferMemoryKind = some context.memKind ∧
          context.aliasInfo.getSingleRoot res = some (.buffer buffer))

variable {context : Context} {buffer : Buffer}

/-- The search for a value of some kind that has the buffer as its root. -/
def findRootedAt (context : Context) (buffer : Buffer) (isKind : Value → Prop)
    [DecidablePred isKind] : List Value → Option Bool
  | [] => some false
  | value :: values =>
    if ¬ isKind value then findRootedAt context buffer isKind values
    else (context.aliasInfo.getSingleRoot value).bind fun root =>
      if root = .buffer buffer then some true else findRootedAt context buffer isKind values

theorem isUsedAsArgument_eq (operands : List Value) :
    isUsedAsArgument context buffer operands = findRootedAt context buffer
      (context.types · = .asyncValue (some context.memKind)) operands := by
  induction operands with
  | nil => rfl
  | cons operand operands ih => rw [isUsedAsArgument, findRootedAt, ih]

theorem isUsedAsResult_eq (results : List Value) : isUsedAsResult context buffer results =
    findRootedAt context buffer (fun res => (context.types res).bufferMemoryKind =
      some context.memKind) results := by
  induction results with
  | nil => rfl
  | cons res results ih => rw [isUsedAsResult, findRootedAt, ih]

section

variable {isKind : Value → Prop} [DecidablePred isKind] {values : List Value}

theorem findRootedAt_false (unused : findRootedAt context buffer isKind values = some false) :
    ∀ value ∈ values, isKind value →
      context.aliasInfo.getSingleRoot value ≠ some (.buffer buffer) := by
  induction values with
  | nil => simp
  | cons value values ih =>
    rw [findRootedAt] at unused
    split at unused
    · rename_i other
      exact forall_mem_cons.mpr ⟨fun kind => absurd kind other, ih unused⟩
    · obtain ⟨root, found, unused⟩ := bind_eq_some_iff.mp unused
      split at unused
      · exact absurd unused (by simp)
      · rename_i other
        refine forall_mem_cons.mpr ⟨fun _ same => other ?_, ih unused⟩
        rw [found] at same
        exact some.inj same

theorem findRootedAt_exists (rooted : ∀ value ∈ values, isKind value →
    ∃ root, context.aliasInfo.getSingleRoot value = some root) :
    ∃ used, findRootedAt context buffer isKind values = some used := by
  induction values with
  | nil => exact ⟨false, rfl⟩
  | cons value values ih =>
    obtain ⟨here, others⟩ := forall_mem_cons.mp rooted
    rw [findRootedAt]
    split
    · exact ih others
    · rename_i kind
      obtain ⟨root, found⟩ := here (not_not.mp kind)
      rw [found, bind_some]
      split
      · exact ⟨true, rfl⟩
      · exact ih others

end

theorem findBufferUses_false {infos : List ScheduledOpInfo} {used : Bool × Bool}
    (unused : findBufferUses context buffer infos used = some (false, false)) :
    used = (false, false) ∧ ∀ info ∈ infos, ¬ UsesBuffer context info.op buffer := by
  induction infos generalizing used with
  | nil => exact ⟨some.inj unused, by simp⟩
  | cons info infos ih =>
    obtain ⟨execOp, exec, unused⟩ := bind_eq_some_iff.mp unused
    obtain ⟨asArgument, argument, unused⟩ := bind_eq_some_iff.mp unused
    obtain ⟨asResult, result, unused⟩ := bind_eq_some_iff.mp unused
    have both : (used.1 || asArgument, used.2 || asResult) = (false, false) ∧
        ∀ info ∈ infos, ¬ UsesBuffer context info.op buffer := by
      dsimp only at unused
      split at unused
      · rename_i found
        rw [(Prod.mk.inj (some.inj unused)).1, Bool.false_and] at found
        exact absurd found (by simp)
      · exact ih unused
    simp only [Prod.mk.injEq, Bool.or_eq_false_iff] at both
    obtain ⟨⟨⟨argument_before, rfl⟩, result_before, rfl⟩, others⟩ := both
    refine ⟨Prod.ext argument_before result_before, forall_mem_cons.mpr ⟨?_, others⟩⟩
    rintro ⟨found, stands, operand | res⟩
    · rw [exec] at stands
      obtain rfl := some.inj stands
      obtain ⟨operand, mem, kind, root⟩ := operand
      exact findRootedAt_false (isUsedAsArgument_eq _ ▸ argument) operand mem kind root
    · rw [exec] at stands
      obtain rfl := some.inj stands
      obtain ⟨res, mem, kind, root⟩ := res
      exact findRootedAt_false (isUsedAsResult_eq _ ▸ result) res mem kind root

/-! ### Chains in a schedule -/

section Promotion

variable {scheduledOps after final : List ScheduledOpInfo}

theorem promoted_refl (scheduledOps : List ScheduledOpInfo) :
    List.Forall₂ Promoted scheduledOps scheduledOps :=
  forall₂_same.mpr fun info _ => Promoted.refl info

theorem promoted_trans (promoted : List.Forall₂ Promoted scheduledOps after)
    (again : List.Forall₂ Promoted after final) : List.Forall₂ Promoted scheduledOps final := by
  induction promoted generalizing final with
  | nil => exact again
  | cons here _ ih =>
    cases again with
    | cons here_again rest_again => exact List.Forall₂.cons (here.trans here_again) (ih rest_again)

theorem promoted_modify {place : Nat} {opType : EOpType} (stands : scheduledOps[place]? = some info)
    (data : info.isDataOp = true) (isRead : isSpillRead info = true)
    (isOriginal : ({ info with opType := opType } : ScheduledOpInfo).isOriginalOp = true) :
    List.Forall₂ Promoted scheduledOps
      (scheduledOps.modify place fun info => { info with opType := opType }) := by
  induction scheduledOps generalizing place with
  | nil => exact absurd stands (by simp)
  | cons first scheduledOps ih =>
    cases place with
    | zero =>
      obtain rfl := some.inj stands
      exact List.Forall₂.cons (.inr ⟨data, isRead, isOriginal, rfl⟩) (promoted_refl _)
    | succ place => exact List.Forall₂.cons (Promoted.refl _) (ih stands)

end Promotion

/-- Nothing uses the buffer of a load between it and a later place. -/
def Unused (context : Context) (scheduledOps : List ScheduledOpInfo) (idx next : Nat) : Prop :=
  ∃ info resource, scheduledOps[idx]? = some info ∧
    info.outputResourceInfo.head? = some resource ∧
    ∀ (place : Nat) (other : ScheduledOpInfo), idx < place → place < next →
      scheduledOps[place]? = some other → ¬ UsesBuffer context other.op resource.buffer

variable {scheduledOps after : List ScheduledOpInfo} {idx next : Nat} {places removed : List Nat}

theorem Unused.of_promoted (promoted : List.Forall₂ Promoted scheduledOps after)
    (unused : Unused context after idx next) : Unused context scheduledOps idx next := by
  obtain ⟨entry, resource, stands, output, others⟩ := unused
  obtain ⟨info, info_stands, same⟩ := Alongside.getElem?_left promoted _ stands
  refine ⟨info, resource, info_stands, by rw [← same.outputResourceInfo]; exact output, ?_⟩
  intro place other above below other_stands
  obtain ⟨after_other, after_stands, same_other⟩ := Alongside.getElem?_right promoted _ other_stands
  rw [← same_other.op]
  exact others place after_other above below after_stands

/-- What the iterations for the entries at some places of a chain remove. -/
structure Removes (context : Context) (scheduledOps : List ScheduledOpInfo) (places : List Nat)
    (removed : List Nat) : Prop where
  nodup : removed.Nodup
  pairs : ∀ place ∈ removed, ∃ front idx next rest, places = front ++ idx :: next :: rest ∧
    (place = idx ∨ place = next) ∧ idx ∈ removed ∧ next ∈ removed ∧ idx < next ∧
    (∃ info, scheduledOps[next]? = some info ∧ info.isSpillWrite = true) ∧
    Unused context scheduledOps idx next

theorem Removes.subset (removes : Removes context scheduledOps places removed) :
    ∀ place ∈ removed, place ∈ places := by
  intro place mem
  obtain ⟨front, idx, next, rest, rfl, which, -⟩ := removes.pairs place mem
  rcases which with rfl | rfl <;> simp

theorem Removes.nil (scheduledOps : List ScheduledOpInfo) (places : List Nat) :
    Removes context scheduledOps places [] :=
  ⟨nodup_nil, by simp⟩

theorem Removes.keep (idx next : Nat) (removes : Removes context scheduledOps places removed) :
    Removes context scheduledOps (idx :: next :: places) removed where
  nodup := removes.nodup
  pairs := by
    intro place mem
    obtain ⟨front, first, second, rest, rfl, facts⟩ := removes.pairs place mem
    exact ⟨idx :: next :: front, first, second, rest, rfl, facts⟩

theorem Removes.drop (promoted : List.Forall₂ Promoted scheduledOps after)
    (distinct : (idx :: next :: places).Nodup) (before : idx < next)
    (write : ∃ info, scheduledOps[next]? = some info ∧ info.isSpillWrite = true)
    (unused : Unused context scheduledOps idx next)
    (removes : Removes context after places removed) :
    Removes context scheduledOps (idx :: next :: places) (idx :: next :: removed) where
  nodup := by
    have subset := removes.subset
    simp only [nodup_cons, mem_cons, not_or] at distinct ⊢
    exact ⟨⟨distinct.1.1, fun mem => distinct.1.2 (subset _ mem)⟩,
      fun mem => distinct.2.1 (subset _ mem), removes.nodup⟩
  pairs := by
    intro place mem
    have here : ∀ place, place = idx ∨ place = next → ∃ front first second rest,
        idx :: next :: places = front ++ first :: second :: rest ∧
        (place = first ∨ place = second) ∧ first ∈ idx :: next :: removed ∧
        second ∈ idx :: next :: removed ∧ first < second ∧
        (∃ info, scheduledOps[second]? = some info ∧ info.isSpillWrite = true) ∧
        Unused context scheduledOps first second := fun place which =>
      ⟨[], idx, next, places, rfl, which, by simp, by simp, before, write, unused⟩
    rcases mem_cons.mp mem with rfl | mem
    · exact here _ (.inl rfl)
    rcases mem_cons.mp mem with rfl | mem
    · exact here _ (.inr rfl)
    obtain ⟨front, first, second, rest, rfl, which, inside, inside', order,
      ⟨entry, stands, isWrite⟩, unused⟩ := removes.pairs place mem
    obtain ⟨info, info_stands, same⟩ := Alongside.getElem?_left promoted _ stands
    exact ⟨idx :: next :: front, first, second, rest, rfl, which, by simp [inside],
      by simp [inside'], order, ⟨info, info_stands, by rw [← same.isSpillWrite]; exact isWrite⟩,
      unused.of_promoted promoted⟩

/-! ### The iterations over a chain -/

variable {scheduledOps chain : List ScheduledOpInfo} {opType : EOpType} {place : Nat}
  {rest : List Nat} {result : List ScheduledOpInfo × List Nat}

theorem exists_of_standAt (stands : StandAt scheduledOps places chain) :
    ∀ place ∈ places, ∃ info ∈ chain, scheduledOps[place]? = some info := by
  induction stands with
  | nil => simp
  | cons here _ ih =>
    refine forall_mem_cons.mpr ⟨⟨_, mem_cons_self, here⟩, fun place mem => ?_⟩
    obtain ⟨info, inside, found⟩ := ih place mem
    exact ⟨info, mem_cons_of_mem _ inside, found⟩

theorem exists_dataOp_of_standAt (stands : StandAt scheduledOps places chain)
    (data : ∀ info ∈ chain, info.isDataOp = true) :
    ∀ place ∈ places, ∃ info, scheduledOps[place]? = some info ∧ info.isDataOp = true :=
  fun place mem =>
    have ⟨info, inside, found⟩ := exists_of_standAt stands place mem
    ⟨info, found, data info inside⟩

theorem StandAt.append {behind : List Nat}
    (stands : StandAt scheduledOps (places ++ behind) chain) :
    ∃ front rest, chain = front ++ rest ∧ StandAt scheduledOps places front ∧
      StandAt scheduledOps behind rest := by
  induction places generalizing chain with
  | nil => exact ⟨[], chain, rfl, List.Forall₂.nil, stands⟩
  | cons place places ih =>
    obtain ⟨info, others, here, tail_stands, rfl⟩ := forall₂_cons_left_iff.mp stands
    obtain ⟨front, rest, rfl, isFront, isRest⟩ := ih tail_stands
    exact ⟨info :: front, rest, rfl, List.Forall₂.cons here isFront, isRest⟩

theorem StandAt.congr (stands : StandAt scheduledOps places chain)
    (same : ∀ place ∈ places, after[place]? = scheduledOps[place]?) :
    StandAt after places chain := by
  induction stands with
  | nil => exact List.Forall₂.nil
  | cons here _ ih =>
    obtain ⟨first, others⟩ := forall_mem_cons.mp same
    exact List.Forall₂.cons (first.trans here) (ih others)

theorem promoteNextSpillRead_getElem? (outside : place ∉ places) :
    (promoteNextSpillRead opType places scheduledOps)[place]? = scheduledOps[place]? := by
  induction places with
  | nil => rfl
  | cons first places ih =>
    rw [mem_cons, not_or] at outside
    rw [promoteNextSpillRead]
    split
    · exact getElem?_modify_ne _ _ (Ne.symm outside.1)
    · exact ih outside.2

theorem promoteNextSpillRead_promoted
    (exist : ∀ place ∈ places, ∃ info, scheduledOps[place]? = some info ∧ info.isDataOp = true)
    (isOriginal : ∀ info : ScheduledOpInfo,
      ({ info with opType := opType } : ScheduledOpInfo).isOriginalOp = true) :
    List.Forall₂ Promoted scheduledOps (promoteNextSpillRead opType places scheduledOps) := by
  induction places with
  | nil => exact promoted_refl _
  | cons place places ih =>
    obtain ⟨⟨entry, entry_stands, data⟩, exist⟩ := forall_mem_cons.mp exist
    rw [promoteNextSpillRead]
    split
    · rename_i found
      obtain ⟨info, stands, isRead⟩ := (any_eq_true _ _).mp found
      rw [entry_stands] at stands
      obtain rfl := some.inj stands
      exact promoted_modify entry_stands data isRead (isOriginal entry)
    · exact ih exist

theorem isOriginalOp_of_opType (isOriginal : info.isOriginalOp = true) (other : ScheduledOpInfo) :
    ({ other with opType := info.opType } : ScheduledOpInfo).isOriginalOp = true := by
  simpa only [ScheduledOpInfo.isOriginalOp] using isOriginal

theorem optimizeDataOp_write (stands : scheduledOps[place]? = some info)
    (isWrite : info.isSpillWrite = true)
    (exist : ∀ place ∈ rest, ∃ info, scheduledOps[place]? = some info ∧ info.isDataOp = true) :
    optimizeDataOp context (place :: rest) scheduledOps removed =
      optimizeDataOp context rest scheduledOps removed := by
  cases rest with
  | nil => simp only [optimizeDataOp]
  | cons next rest =>
    obtain ⟨nextInfo, found, -⟩ := exist next mem_cons_self
    rw [optimizeDataOp, stands, found, bind_some, bind_some, isWrite, Bool.true_or, if_pos rfl]

theorem optimizeDataOp_pair {nextInfo : ScheduledOpInfo} (stands : scheduledOps[idx]? = some info)
    (stands_next : scheduledOps[next]? = some nextInfo)
    (exist : ∀ place ∈ rest, ∃ info, scheduledOps[place]? = some info ∧ info.isDataOp = true)
    (load : info.isSpillWrite = false) (isWrite : nextInfo.isSpillWrite = true)
    (run : optimizeDataOp context (idx :: next :: rest) scheduledOps removed = some result) :
    idx < next ∧ (optimizeDataOp context rest scheduledOps removed = some result ∨
      Unused context scheduledOps idx next ∧
        optimizeDataOp context rest
          (if info.isOriginalOp then promoteNextSpillRead info.opType rest scheduledOps
            else scheduledOps) (removed ++ [idx, next]) = some result) := by
  rw [optimizeDataOp, stands, stands_next, bind_some, bind_some, load, isWrite,
    Bool.false_or, Bool.not_true, if_neg Bool.false_ne_true] at run
  split at run
  · exact absurd run (by simp)
  · rename_i before
    refine ⟨not_not.mp before, ?_⟩
    obtain ⟨resource, output, run⟩ := bind_eq_some_iff.mp run
    obtain ⟨used, uses, run⟩ := bind_eq_some_iff.mp run
    split at run
    · rw [optimizeDataOp_write stands_next isWrite exist] at run
      exact .inl run
    · rename_i notUsed
      have none_used : used = (false, false) := by
        rw [Bool.or_eq_true, not_or, Bool.not_eq_true, Bool.not_eq_true] at notUsed
        exact Prod.ext notUsed.1 notUsed.2
      rw [none_used] at uses
      have unused : Unused context scheduledOps idx next := by
        refine ⟨info, resource, stands, output, fun place other above below found => ?_⟩
        refine (findBufferUses_false uses).2 other ?_
        refine mem_of_getElem? (i := place - (idx + 1)) ?_
        rw [getElem?_drop, getElem?_take, if_pos (by omega),
          show idx + 1 + (place - (idx + 1)) = place by omega]
        exact found
      refine .inr ⟨unused, ?_⟩
      split at run
      · rename_i isOriginal
        have promoted := promoteNextSpillRead_promoted exist (isOriginalOp_of_opType isOriginal)
        obtain ⟨entry, entry_stands, same⟩ := Alongside.getElem?_right promoted _ stands_next
        rw [optimizeDataOp_write entry_stands (by rw [same.isSpillWrite, isWrite])] at run
        · rw [if_pos isOriginal]
          exact run
        · intro place mem
          obtain ⟨other, found, data⟩ := exist place mem
          obtain ⟨entry, found, same⟩ := Alongside.getElem?_right promoted _ found
          exact ⟨entry, found, same.isDataOp.trans data⟩
      · rename_i notOriginal
        rw [optimizeDataOp_write stands_next isWrite exist] at run
        rw [if_neg notOriginal]
        exact run

theorem filter_keep_pair (distinct : (idx :: next :: places).Nodup)
    (subset : ∀ place ∈ removed, place ∈ places) :
    (idx :: next :: places).filter (· ∉ removed) =
      idx :: next :: places.filter (· ∉ removed) := by
  simp only [nodup_cons, mem_cons, not_or] at distinct
  have first : idx ∉ removed := fun mem => distinct.1.2 (subset _ mem)
  have second : next ∉ removed := fun mem => distinct.2.1 (subset _ mem)
  simp [first, second]

theorem filter_drop_pair (distinct : (idx :: next :: places).Nodup) :
    (idx :: next :: places).filter (· ∉ idx :: next :: removed) =
      places.filter (· ∉ removed) := by
  simp only [nodup_cons, mem_cons, not_or] at distinct
  have others : ∀ place ∈ places, place ≠ idx ∧ place ≠ next := fun place mem =>
    ⟨fun same => distinct.1.2 (same ▸ mem), fun same => distinct.2.1 (same ▸ mem)⟩
  simp only [filter_cons, mem_cons, true_or, or_true, not_true_eq_false, decide_false,
    Bool.false_eq_true, if_false]
  refine filter_congr fun place mem => ?_
  simp [others place mem]

/-- From a spill read on, pairs are kept or removed, and spill reads and spill writes still stand in
turn. -/
theorem optimizeDataOp_reads (places : List Nat) (chain : List ScheduledOpInfo)
    (distinct : places.Nodup) (stands : StandAt scheduledOps places chain)
    (data : ∀ info ∈ chain, info.isDataOp = true) (reads : IsReadChain chain)
    (run : optimizeDataOp context places scheduledOps removed = some result) :
    result.1 = scheduledOps ∧ ∃ newly, result.2 = removed ++ newly ∧
      Removes context scheduledOps places newly ∧
      ∃ left, StandAt scheduledOps (places.filter (· ∉ newly)) left ∧ IsReadChain left := by
  induction chain using IsReadChain.induct generalizing places removed with
  | case1 =>
    cases stands
    cases run
    exact ⟨rfl, [], (append_nil _).symm, Removes.nil _ _, [], List.Forall₂.nil, trivial⟩
  | case2 info =>
    obtain ⟨place, rfl⟩ : ∃ place, places = [place] := length_eq_one_iff.mp stands.length_eq
    simp only [optimizeDataOp, some.injEq] at run
    subst run
    exact ⟨rfl, [], (append_nil _).symm, Removes.nil _ _, [info],
      by simpa using stands, reads⟩
  | case3 info nextInfo chain ih =>
    obtain _ | ⟨here, _ | ⟨here_next, stands⟩⟩ := stands
    rename_i idx next places
    obtain ⟨isRead, isWrite, reads⟩ := reads
    have data_rest : ∀ info ∈ chain, info.isDataOp = true :=
      (forall_mem_cons.mp (forall_mem_cons.mp data).2).2
    have exist := exists_dataOp_of_standAt stands data_rest
    obtain ⟨before, kept | ⟨unused, dropped⟩⟩ := optimizeDataOp_pair here here_next exist
      (not_isSpillWrite_of_isSpillRead isRead) isWrite run
    · obtain ⟨same, newly, appended, removes, left, left_stands, left_reads⟩ :=
        ih places distinct.of_cons.of_cons stands data_rest reads kept
      refine ⟨same, newly, appended, removes.keep idx next, info :: nextInfo :: left, ?_,
        isRead, isWrite, left_reads⟩
      rw [filter_keep_pair distinct removes.subset]
      exact .cons here (.cons here_next left_stands)
    · rw [not_isOriginalOp_of_isSpillRead isRead, if_neg Bool.false_ne_true] at dropped
      obtain ⟨same, newly, appended, removes, left, left_stands, left_reads⟩ :=
        ih places distinct.of_cons.of_cons stands data_rest reads dropped
      refine ⟨same, idx :: next :: newly, by rw [appended, append_assoc]; rfl,
        removes.drop (promoted_refl _) distinct before ⟨nextInfo, here_next, isWrite⟩ unused, left,
        ?_, left_reads⟩
      rw [filter_drop_pair distinct]
      exact left_stands

theorem isDataChain_promoted (distinct : places.Nodup) (stands : StandAt scheduledOps places chain)
    (data : ∀ info ∈ chain, info.isDataOp = true) (reads : IsReadChain chain)
    (isOriginal : ∀ info : ScheduledOpInfo,
      ({ info with opType := opType } : ScheduledOpInfo).isOriginalOp = true) :
    ∃ rest, StandAt (promoteNextSpillRead opType places scheduledOps) places rest ∧
      (∀ info ∈ rest, info.isDataOp = true) ∧ IsDataChain rest := by
  cases stands with
  | nil => exact ⟨[], List.Forall₂.nil, by simp, trivial⟩
  | @cons place spillRead places chain here stands =>
    have isRead : isSpillRead spillRead = true := by
      cases chain with
      | nil => exact reads
      | cons spillWrite chain => exact reads.1
    have found : scheduledOps[place]?.any isSpillRead = true := by rw [here, any_some, isRead]
    obtain ⟨outside, -⟩ := nodup_cons.mp distinct
    obtain ⟨data_read, data⟩ := forall_mem_cons.mp data
    refine ⟨{ spillRead with opType := opType } :: chain, ?_,
      forall_mem_cons.mpr ⟨data_read, data⟩, ?_⟩
    · rw [promoteNextSpillRead, if_pos found]
      refine List.Forall₂.cons ?_ (StandAt.congr stands fun other mem => ?_)
      · rw [getElem?_modify_eq, here]
        rfl
      · exact getElem?_modify_ne _ _ fun same => outside (same ▸ mem)
    · cases chain with
      | nil => exact isOriginal spillRead
      | cons spillWrite chain => exact ⟨isOriginal spillRead, reads.2⟩

/-- From an `ORIGINAL` on, what is left is empty or starts with an `ORIGINAL` again. -/
theorem optimizeDataOp_chain (places : List Nat) (chain : List ScheduledOpInfo)
    (distinct : places.Nodup) (stands : StandAt scheduledOps places chain)
    (data : ∀ info ∈ chain, info.isDataOp = true) (isChain : IsDataChain chain)
    (run : optimizeDataOp context places scheduledOps removed = some result) :
    List.Forall₂ Promoted scheduledOps result.1 ∧
      (∀ place, place ∉ places → result.1[place]? = scheduledOps[place]?) ∧
      ∃ newly, result.2 = removed ++ newly ∧ Removes context scheduledOps places newly ∧
        ∃ left, StandAt result.1 (places.filter (· ∉ newly)) left ∧ IsDataChain left := by
  induction places using twoStepInduction generalizing scheduledOps chain removed with
  | nil =>
    cases stands
    cases run
    exact ⟨promoted_refl _, fun _ _ => rfl, [], (append_nil _).symm, Removes.nil _ _, [],
      List.Forall₂.nil, trivial⟩
  | singleton place =>
    simp only [optimizeDataOp, some.injEq] at run
    subst run
    exact ⟨promoted_refl _, fun _ _ => rfl, [], (append_nil _).symm, Removes.nil _ _, chain,
      by simpa using stands, isChain⟩
  | cons_cons idx next places ih _ =>
    obtain ⟨info, nextInfo, chain, rfl⟩ :
        ∃ info nextInfo rest, chain = info :: nextInfo :: rest := by
      obtain _ | ⟨-, _ | -⟩ := stands
      exact ⟨_, _, _, rfl⟩
    obtain ⟨here, stands⟩ := forall₂_cons.mp stands
    obtain ⟨here_next, stands⟩ := forall₂_cons.mp stands
    obtain ⟨isOriginal, isWrite, reads⟩ := isChain
    have data_rest : ∀ info ∈ chain, info.isDataOp = true :=
      (forall_mem_cons.mp (forall_mem_cons.mp data).2).2
    have exist := exists_dataOp_of_standAt stands data_rest
    obtain ⟨before, kept | ⟨unused, dropped⟩⟩ := optimizeDataOp_pair here here_next exist
      (not_isSpillWrite_of_isOriginalOp isOriginal) isWrite run
    · obtain ⟨same, newly, appended, removes, left, left_stands, left_reads⟩ :=
        optimizeDataOp_reads places chain distinct.of_cons.of_cons stands data_rest reads kept
      rw [same]
      refine ⟨promoted_refl _, fun _ _ => rfl, newly, appended, removes.keep idx next,
        info :: nextInfo :: left, ?_, isOriginal, isWrite, left_reads⟩
      rw [filter_keep_pair distinct removes.subset]
      exact .cons here (.cons here_next left_stands)
    · rw [if_pos isOriginal] at dropped
      have promoted := promoteNextSpillRead_promoted exist (isOriginalOp_of_opType isOriginal)
      have outside : ∀ place, place ∉ places →
          (promoteNextSpillRead info.opType places scheduledOps)[place]? = scheduledOps[place]? :=
        fun place => promoteNextSpillRead_getElem?
      -- The next spill read, if there is one, starts the rest of the chain as an `ORIGINAL`.
      obtain ⟨rest, rest_stands, rest_data, rest_chain⟩ : ∃ rest,
          StandAt (promoteNextSpillRead info.opType places scheduledOps) places rest ∧
            (∀ info ∈ rest, info.isDataOp = true) ∧ IsDataChain rest :=
        isDataChain_promoted distinct.of_cons.of_cons stands data_rest reads
          (isOriginalOp_of_opType isOriginal)
      obtain ⟨again, unchanged, newly, appended, removes, left, left_stands, left_chain⟩ :=
        ih rest distinct.of_cons.of_cons rest_stands rest_data rest_chain dropped
      refine ⟨promoted_trans promoted again, fun place away => ?_, idx :: next :: newly,
        by rw [appended, append_assoc]; rfl,
        removes.drop promoted distinct before ⟨nextInfo, here_next, isWrite⟩ unused, left, ?_,
        left_chain⟩
      · simp only [mem_cons, not_or] at away
        rw [unchanged place away.2.2, outside place away.2.2]
      · rw [filter_drop_pair distinct]
        exact left_stands

end NpuPlugin.FeasibleMemorySchedulerSpilling
