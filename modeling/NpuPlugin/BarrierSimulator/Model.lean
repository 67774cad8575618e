/-
This file models `VPURT::BarrierSimulator`: its constructor, the table of virtual dependencies, the
barrier control map, `simulateBarriers` and `processSim`. The loops of the source are loops over
turns: a turn maps one barrier, advances one queue by one task, or is an iteration of the main loop.
-/

import NpuPlugin.Library.Loop
import NpuPlugin.Library.RingBuffer

namespace NpuPlugin.BarrierSimulator

/-! ### The function -/

inductive DmaChannelType
  | DDR
  | CMX
  | NOT_SPECIFIED
deriving DecidableEq, Repr

/-- The executor of a task op with what the simulator reads of the wrapped op. A DMA has a
port, a number of clusters when it is tiled over a segmented or overlapped buffer, and a
channel; an NCE cluster task has at least one variant, as its verifier demands. -/
inductive Executor
  | DMA_NN (port : Int) (numClusters : Option Nat) (channel : Option DmaChannelType)
  | DPU (numVariants : Nat) (pos : 0 < numVariants)
  | SHAVE_ACT
  | SHAVE_UPA
  | M2I
  | UNKNOWN
deriving DecidableEq, Repr

/-- `VPURT::TaskOp`: its barriers are given by virtual id. -/
structure TaskOp where
  executor : Executor
  waitBarriers : List Nat
  updateBarriers : List Nat
deriving DecidableEq, Repr

/-- The barriers of a function: virtual ones, or ones configured with a physical id. -/
inductive Barriers
  | declared (count : Nat)
  | configured (ids : List Int)
deriving DecidableEq, Repr

def Barriers.count : Barriers → Nat
  | .declared count => count
  | .configured ids => ids.length

/-- A function as the simulator sees it, with the resources of its module. Every barrier a
task names is declared. -/
structure Program where
  dmaPortCount : Nat
  independentDmaQueues : Nat
  availableBarriers : Int
  barriers : Barriers
  tasks : List TaskOp
  declared : ∀ task ∈ tasks,
    ∀ vid ∈ task.waitBarriers ++ task.updateBarriers, vid < barriers.count

/-! ### DMA queues -/

def channelValue : Option DmaChannelType → Int
  | some .DDR => 0
  | some .CMX => 1
  | some .NOT_SPECIFIED => 2
  | none => 2

/-- `getDMAQueueIdEncoding`; `getMaxEnumValForDmaChannelType` is 2. -/
def getDMAQueueIdEncoding (port : Int) (channel : Option DmaChannelType) : Int :=
  port * (2 + 1) + channelValue channel

def getDMATaskPorts (dmaPortCount : Nat) (port : Int) : Option Nat → List Int
  | some numClusters => (List.range (min numClusters dmaPortCount)).map fun idx : Nat => (idx : Int)
  | none => [port]

/-! ### Virtual dependencies -/

/-- `VirtualDependencyTracker::Range`: the first index and the number of ids. -/
abbrev Range := Nat × Nat

structure Dependency where
  consumer : Range
  producer : Range
deriving DecidableEq, Repr, Inhabited

/-- `VirtualDependencyTracker`; dependency 0 is the empty one. -/
structure VirtualDependencyTracker where
  ids : List Nat
  deps : List Dependency
deriving DecidableEq, Repr

namespace VirtualDependencyTracker

def init : VirtualDependencyTracker := ⟨[], [default]⟩

variable (vdt : VirtualDependencyTracker)

def add (taskOp : TaskOp) : Nat × VirtualDependencyTracker :=
  let consumer : Range := (vdt.ids.length, taskOp.waitBarriers.length)
  let ids := vdt.ids ++ taskOp.waitBarriers
  let producer : Range := (ids.length, taskOp.updateBarriers.length)
  let ids := ids ++ taskOp.updateBarriers
  if consumer.2 ≠ 0 ∨ producer.2 ≠ 0 then
    (vdt.deps.length, ⟨ids, vdt.deps ++ [⟨consumer, producer⟩]⟩)
  else (0, ⟨ids, vdt.deps⟩)

/-- The ids a range names, as the loops over `_vdt.id(range.first + i)` read them. -/
def idsOf (range : Range) : List Nat :=
  (List.range range.2).map fun idx => vdt.ids.getD (range.1 + idx) 0

def dep (idx : Nat) : Dependency := vdt.deps.getD idx default

def waits (idx : Nat) : List Nat := vdt.idsOf (vdt.dep idx).consumer

def posts (idx : Nat) : List Nat := vdt.idsOf (vdt.dep idx).producer

end VirtualDependencyTracker

/-! ### The simulator -/

structure BarrierConfig where
  realId : Int
  producerCount : Int
  consumerCount : Int
deriving DecidableEq, Repr, Inhabited

/-- `BarrierUserConfig` with what the simulation reads of it. The last field is the position of
the task op in the function; it serves to state properties, and no code reads it. -/
structure BarrierUserConfig where
  virtualDep : Nat
  count : Int
  task : Nat
deriving DecidableEq, Repr

abbrev DmaTaskIdx := Int × Nat

/-- `BarrierSimulator`. The hash map `_multiQueueDmaTaskStatus` is the list of its items. -/
structure Simulator where
  availableBarriers : Int
  barriers : List BarrierConfig
  isDynamicBarriers : Bool
  samePidTopoDep : Bool
  dmaTasks : List (List BarrierUserConfig)
  multiQueueDmaTaskStatus : List (List DmaTaskIdx × Bool)
  nceTasks : List BarrierUserConfig
  actTasks : List BarrierUserConfig
  upaTasks : List BarrierUserConfig
  m2iTasks : List BarrierUserConfig
  vdt : VirtualDependencyTracker
  barrierControlMap : List (List Bool)
deriving DecidableEq, Repr

/-! ### Parsing -/

def parseBarriers : Barriers → List BarrierConfig
  | .declared count => List.replicate count ⟨-1, 0, 0⟩
  | .configured ids => ids.map fun id => ⟨id, 0, 0⟩

def BarrierConfig.addConsumers (count : Int) (config : BarrierConfig) : BarrierConfig :=
  { config with consumerCount := config.consumerCount + count }

def BarrierConfig.addProducers (count : Int) (config : BarrierConfig) : BarrierConfig :=
  { config with producerCount := config.producerCount + count }

def updateBarrierConfigs (barriers : List BarrierConfig) (taskOp : TaskOp) (count : Int) :
    List BarrierConfig :=
  taskOp.updateBarriers.foldl (fun barriers vid => barriers.modify vid (.addProducers count))
    (taskOp.waitBarriers.foldl (fun barriers vid => barriers.modify vid (.addConsumers count))
      barriers)

/-- `dmaQueueIdToIndexMap`: the index of every DMA queue met so far. -/
abbrev QueueIndexMap := List (Int × Nat)

/-- The index of a DMA queue, which is added to the map when it is new. -/
def queueIndex (indices : QueueIndexMap) (dmaQueueId : Int) : Nat × QueueIndexMap :=
  match indices.lookup dmaQueueId with
  | some idx => (idx, indices)
  | none => (indices.length, indices ++ [(dmaQueueId, indices.length)])

/-- What the loop over the ports of a DMA task changes. -/
structure PortState where
  indices : QueueIndexMap
  dmaTasks : List (List BarrierUserConfig)
  dmaTaskIndexs : List DmaTaskIdx

/-- One port of a DMA task. -/
def parsePort (user : BarrierUserConfig) (channel : Option DmaChannelType) (state : PortState)
    (port : Int) : Except String PortState :=
  let (dmaTasksQueueIndex, indices) := queueIndex state.indices (getDMAQueueIdEncoding port channel)
  match state.dmaTasks[dmaTasksQueueIndex]? with
  | none => .error "NNDMAOp queue index larger than maximum number of queues"
  | some queue => .ok
    { indices := indices
      dmaTasks := state.dmaTasks.set dmaTasksQueueIndex (queue ++ [user])
      dmaTaskIndexs := state.dmaTaskIndexs ++ [(port, queue.length)] }

/-- `insert` on the hash map: an existing key is kept. -/
def insertStatus (items : List (List DmaTaskIdx × Bool)) (key : List DmaTaskIdx) :
    List (List DmaTaskIdx × Bool) :=
  if items.any fun item => item.1 == key then items else items ++ [(key, false)]

/-- The simulator and the queue map while `parseTasks` walks over the tasks. -/
structure ParseState where
  sim : Simulator
  indices : QueueIndexMap

/-- One task of `parseTasks`. -/
def parseTask (dmaPortCount : Nat) (state : ParseState) (item : TaskOp × Nat) :
    Except String ParseState :=
  let (taskOp, task) := item
  let (virtualDep, vdt) := state.sim.vdt.add taskOp
  let sim := { state.sim with vdt := vdt }
  match taskOp.executor with
  | .DMA_NN port numClusters channel => do
    let ports := getDMATaskPorts dmaPortCount port numClusters
    let parsed ← ports.foldlM (parsePort ⟨virtualDep, 1, task⟩ channel)
      ⟨state.indices, sim.dmaTasks, []⟩
    return ⟨{ sim with
      dmaTasks := parsed.dmaTasks
      barriers := updateBarrierConfigs sim.barriers taskOp 1
      multiQueueDmaTaskStatus :=
        if 1 < parsed.dmaTaskIndexs.length then
          insertStatus sim.multiQueueDmaTaskStatus parsed.dmaTaskIndexs
        else sim.multiQueueDmaTaskStatus }, parsed.indices⟩
  | .DPU numVariants _ => .ok ⟨{ sim with
      nceTasks := sim.nceTasks ++ [⟨virtualDep, numVariants, task⟩]
      barriers := updateBarrierConfigs sim.barriers taskOp numVariants }, state.indices⟩
  | .SHAVE_ACT => .ok ⟨{ sim with
      actTasks := sim.actTasks ++ [⟨virtualDep, 1, task⟩]
      barriers := updateBarrierConfigs sim.barriers taskOp 1 }, state.indices⟩
  | .SHAVE_UPA => .ok ⟨{ sim with
      upaTasks := sim.upaTasks ++ [⟨virtualDep, 1, task⟩]
      barriers := updateBarrierConfigs sim.barriers taskOp 1 }, state.indices⟩
  | .M2I => .ok ⟨{ sim with
      m2iTasks := sim.m2iTasks ++ [⟨virtualDep, 1, task⟩]
      barriers := updateBarrierConfigs sim.barriers taskOp 1 }, state.indices⟩
  | .UNKNOWN => .ok ⟨{ sim with
      dmaTasks := sim.dmaTasks.modify 0 fun queue => queue ++ [⟨virtualDep, 1, task⟩]
      barriers := updateBarrierConfigs sim.barriers taskOp 1 }, state.indices⟩

def parseTasks (dmaPortCount : Nat) (sim : Simulator) (tasks : List TaskOp) :
    Except String ParseState :=
  tasks.zipIdx.foldlM (parseTask dmaPortCount) ⟨sim, []⟩

/-! ### The barrier control map -/

/-- A `BitVector` with one more bit set. -/
def setBit (bits : List Bool) (idx : Nat) : List Bool := bits.set idx true

/-- The union of two bit vectors. -/
def unionBits (first second : List Bool) : List Bool := List.zipWith or first second

/-- The last DMA task met on each queue. -/
abbrev LastOpMap := List (Int × TaskOp)

/-- The barriers a task depends on: its own wait barriers, and those of the task before it on
its DMA queue. -/
def dependedBarriers (lastOps : LastOpMap) (taskOp : TaskOp) : List Nat × LastOpMap :=
  match taskOp.executor with
  | .DMA_NN port _ channel =>
    let queue := getDMAQueueIdEncoding port channel
    let previous := match lastOps.lookup queue with
      | some lastOp => lastOp.waitBarriers
      | none => []
    (previous ++ taskOp.waitBarriers, (queue, taskOp) :: lastOps)
  | _ => (taskOp.waitBarriers, lastOps)

/-- The walk of `buildBarrierControlMap` over the tasks. -/
def directControlMap (rows : List (List Bool)) (tasks : List TaskOp) : List (List Bool) :=
  (tasks.foldl (fun (state : List (List Bool) × LastOpMap) taskOp =>
    let (depBars, lastOps) := dependedBarriers state.2 taskOp
    (taskOp.updateBarriers.foldl (fun rows vid =>
      rows.modify vid fun row => depBars.foldl setBit row) state.1, lastOps)) (rows, [])).1

/-- The closure of one row. Bits set on the way are visited when they lie ahead. -/
def closeRow (rows : List (List Bool)) (current : Nat) : List (List Bool) :=
  (List.range rows.length).foldl (fun rows curDepInd =>
    if (rows.getD current []).getD curDepInd false then
      rows.modify current fun row => unionBits row (rows.getD curDepInd [])
    else rows) rows

def buildBarrierControlMap (barrierCount : Nat) (tasks : List TaskOp) : List (List Bool) :=
  let rows := directControlMap
    (List.replicate barrierCount (List.replicate barrierCount false)) tasks
  (List.range barrierCount).foldl closeRow rows

/-! ### The constructor -/

def Barriers.isDynamic : Barriers → Bool
  | .declared count => decide (0 < count)
  | .configured _ => false

def emptySimulator (prog : Program) : Simulator :=
  { availableBarriers := prog.availableBarriers
    barriers := parseBarriers prog.barriers
    isDynamicBarriers := prog.barriers.isDynamic
    samePidTopoDep := false
    dmaTasks := List.replicate prog.independentDmaQueues []
    multiQueueDmaTaskStatus := []
    nceTasks := []
    actTasks := []
    upaTasks := []
    m2iTasks := []
    vdt := VirtualDependencyTracker.init
    barrierControlMap := [] }

def Program.simulator (prog : Program) (wlm : Bool) : Except String Simulator := do
  let parsed ← parseTasks prog.dmaPortCount (emptySimulator prog) prog.tasks
  if wlm then
    return { parsed.sim with
      samePidTopoDep := true
      barrierControlMap := buildBarrierControlMap prog.barriers.count prog.tasks }
  else return parsed.sim

/-! ### The state -/

/-- What `processSim` changes. -/
structure Slots where
  barriers : List BarrierConfig
  toVirtual : List Int
  nextReal : RingBuffer Int
deriving Repr

/-- The local state of `simulateBarriers`. The positions in the DMA queues come first in
`heads`, then those in the NCE, ACT, UPA and M2I queues. -/
structure State where
  slots : Slots
  prevVidOfPhysBar : List Int
  bar : Nat
  heads : List Nat
  multiQueueDmaTaskStatus : List (List DmaTaskIdx × Bool)
  barrierBatchesToLegalize : List (List Int)
  progressed : Bool
deriving Repr

/-- The ways to return early. -/
inductive Exit
  | statusFail
  | blocked
  | batchesToLegalize
  | thrown (message : String)
  | outOfFuel
deriving DecidableEq, Repr

/-- The arguments of `simulateBarriers`, with the limit its first lines compute. -/
structure Settings where
  activeBarrierLimit : Nat
  barrierLegalization : Bool
deriving DecidableEq, Repr

/-- All queues, in the order in which an iteration serves them. -/
def Simulator.queues (sim : Simulator) : List (List BarrierUserConfig) :=
  sim.dmaTasks ++ [sim.nceTasks, sim.actTasks, sim.upaTasks, sim.m2iTasks]

def Simulator.queue (sim : Simulator) (idx : Nat) : List BarrierUserConfig := sim.queues.getD idx []

namespace Slots

variable (slots : Slots)

def config (v : Nat) : BarrierConfig := slots.barriers.getD v default

/-- The slot of `toVirtual`; an index outside of it, which the source does not check in every
place, reads as no barrier. -/
def owner (real : Int) : Option Int := if real < 0 then none else slots.toVirtual[real.toNat]?

def setConsumerCount (v : Nat) (count : Int) : Slots :=
  { slots with barriers := slots.barriers.modify v fun config =>
    { config with consumerCount := count } }

def setProducerCount (v : Nat) (count : Int) : Slots :=
  { slots with barriers := slots.barriers.modify v fun config =>
    { config with producerCount := count } }

def release (isDynamic : Bool) (real : Int) : Slots :=
  { slots with
    toVirtual := slots.toVirtual.set real.toNat (-1)
    nextReal := if isDynamic then slots.nextReal.push real else slots.nextReal }

end Slots

/-! ### processSim -/

/-- `Status`; a success carries the slots it leaves. -/
inductive Status
  | Success (slots : Slots)
  | Skip
  | Fail
deriving Repr

def isBarrierMapped (isDynamic : Bool) (slots : Slots) (v : Nat) : Bool :=
  match slots.owner (slots.config v).realId with
  | none => false
  | some owner => isDynamic || owner == (v : Int)

/-- The loops of `processSim` that may skip the task. -/
def isReady (isDynamic : Bool) (slots : Slots) (waits posts : List Nat) : Bool :=
  waits.all (fun v =>
    isBarrierMapped isDynamic slots v && decide ((slots.config v).producerCount ≤ 0)) &&
  posts.all fun v => isBarrierMapped isDynamic slots v

def consumeBarrier (isDynamic : Bool) (count : Int) (slots : Slots) (v : Nat) : Option Slots :=
  let config := slots.config v
  if isBarrierMapped isDynamic slots v then
    if config.producerCount ≠ 0 ∨ config.consumerCount < count then none
    else
      let consumed := slots.setConsumerCount v (config.consumerCount - count)
      if config.consumerCount - count = 0 then some (consumed.release isDynamic config.realId)
      else some consumed
  else none

def produceBarrier (isDynamic : Bool) (count : Int) (slots : Slots) (v : Nat) : Option Slots :=
  let config := slots.config v
  if isBarrierMapped isDynamic slots v then
    if config.producerCount < count then none
    else some (slots.setProducerCount v (config.producerCount - count))
  else none

/-- The loops of `processSim` that change the counts. -/
def applyDep (isDynamic : Bool) (count : Int) (waits posts : List Nat) (slots : Slots) :
    Option Slots := do
  let consumed ← waits.foldlM (consumeBarrier isDynamic count) slots
  posts.foldlM (produceBarrier isDynamic count) consumed

def processSim (isDynamic : Bool) (vdt : VirtualDependencyTracker) (user : BarrierUserConfig)
    (slots : Slots) : Status :=
  let waits := vdt.waits user.virtualDep
  let posts := vdt.posts user.virtualDep
  if isReady isDynamic slots waits posts then
    match applyDep isDynamic user.count waits posts slots with
    | some after => .Success after
    | none => .Fail
  else .Skip

/-! ### Mapping barriers -/

variable (sim : Simulator) (settings : Settings) (state : State)

def hasBarriersToMap : Bool :=
  if sim.isDynamicBarriers then !state.slots.nextReal.empty
  else state.slots.owner (state.slots.config state.bar).realId == some (-1)

/-- The search for a physical id whose last user the barrier depends on. A rejected id goes
back to the ring buffer. -/
def pickPid (control : List Bool) (prevVidOfPhysBar : List Int) :
    Nat → RingBuffer Int → Option Int × RingBuffer Int
  | 0, nextReal => (none, nextReal)
  | numOfAvailablePhysBars + 1, nextReal =>
    let real := nextReal.front
    let prevVid := prevVidOfPhysBar.getD real.toNat (-1)
    if 0 ≤ prevVid ∧ control.getD prevVid.toNat false = false then
      pickPid control prevVidOfPhysBar numOfAvailablePhysBars (nextReal.pop.push real)
    else (some real, nextReal.pop)

/-- The real id for the next barrier, and the ring buffer left. -/
def pickReal : Option Int × RingBuffer Int :=
  let nextReal := state.slots.nextReal
  if sim.isDynamicBarriers then
    if sim.samePidTopoDep then
      pickPid (sim.barrierControlMap.getD state.bar []) state.prevVidOfPhysBar nextReal.size
        nextReal
    else (some nextReal.front, nextReal.pop)
  else (some (state.slots.config state.bar).realId, nextReal)

/-- The next barrier enters a slot. -/
def bindReal (real : Int) (nextReal : RingBuffer Int) : State :=
  { state with
    slots :=
      { barriers := state.slots.barriers.modify state.bar fun config =>
          { config with realId := real }
        toVirtual := state.slots.toVirtual.set real.toNat state.bar
        nextReal := nextReal }
    prevVidOfPhysBar := state.prevVidOfPhysBar.set real.toNat state.bar
    bar := state.bar + 1
    progressed := true }

/-- One turn of the loop that maps new barriers. -/
def mapBarrier : Turn State Exit :=
  if state.bar < state.slots.barriers.length ∧ hasBarriersToMap sim state = true then
    match pickReal sim state with
    | (none, nextReal) => .leave { state with slots := { state.slots with nextReal := nextReal } }
    | (some real, nextReal) =>
      if real < 0 then .exit (.thrown "No new barrier was mapped")
      else .next (bindReal state real nextReal)
  else .leave state

def mapBarriers : Except Exit State :=
  Turn.loop (mapBarrier sim) (state.slots.barriers.length - state.bar + 1) state

/-! ### Advancing queues -/

def State.head (idx : Nat) : Nat := state.heads.getD idx 0

/-- The item of `_multiQueueDmaTaskStatus` that holds the next task of a queue. Only DMA
queues are looked up. -/
def multiQueueItem (idx : Nat) : Option Nat :=
  if idx < sim.dmaTasks.length then
    state.multiQueueDmaTaskStatus.findIdx? fun item => item.1.contains ((idx : Int), state.head idx)
  else none

def isProcessed : Option Nat → Bool
  | some item => (state.multiQueueDmaTaskStatus.getD item default).2
  | none => false

def passTask (idx : Nat) : State :=
  { state with heads := state.heads.modify idx (· + 1), progressed := true }

def finishTask (idx : Nat) (item : Option Nat) (slots : Slots) : State :=
  passTask
    { state with
      slots := slots
      multiQueueDmaTaskStatus := match item with
        | some item => state.multiQueueDmaTaskStatus.modify item fun entry => (entry.1, true)
        | none => state.multiQueueDmaTaskStatus } idx

/-- One turn of the loop over a queue. -/
def advanceQueue (idx : Nat) (state : State) : Turn State Exit :=
  match (sim.queue idx)[state.head idx]? with
  | none => .leave state
  | some user =>
    let item := multiQueueItem sim state idx
    if isProcessed state item then .next (passTask state idx)
    else
      match processSim sim.isDynamicBarriers sim.vdt user state.slots with
      | .Success slots => .next (finishTask state idx item slots)
      | .Skip => .leave state
      | .Fail => .exit .statusFail

def processQueue (idx : Nat) : Except Exit State :=
  Turn.loop (advanceQueue sim idx) ((sim.queue idx).length - state.head idx + 1) state

def processQueues : Except Exit State :=
  (List.range sim.queues.length).foldlM (processQueue sim) state

/-! ### Legalization -/

/-- The message when a slot is free although there are too many slots. -/
def notMappedMessage : String := "Found not mapped barrier with exceeding barriers"

/-- The loop of `isNewBatchNeeded` over the slots. -/
def isNewBatchNeededLoop (samePidTopoDep : Bool) (lastBatch : List Int) :
    List Int → Bool → Except Exit Bool
  | [], activeBarrierIsMapped => .ok activeBarrierIsMapped
  | activeBar :: rest, activeBarrierIsMapped =>
    if activeBar = -1 then
      if samePidTopoDep then isNewBatchNeededLoop samePidTopoDep lastBatch rest
        activeBarrierIsMapped
      else .error (.thrown notMappedMessage)
    else if lastBatch.contains activeBar then .ok false
    else isNewBatchNeededLoop samePidTopoDep lastBatch rest true

def isNewBatchNeeded : Except Exit Bool :=
  match state.barrierBatchesToLegalize.getLast? with
  | none => .ok true
  | some [] => .ok false
  | some lastBatch => isNewBatchNeededLoop sim.samePidTopoDep lastBatch state.slots.toVirtual false

def insertBarrier (batch : List Int) (vid : Int) : List Int :=
  if batch.contains vid then batch else batch ++ [vid]

/-- The active barriers are added to the last batch. -/
def collectBatch (samePidTopoDep : Bool) (batch : List Int) (activeBar : Int) :
    Except Exit (List Int) :=
  if activeBar = -1 then if samePidTopoDep then .ok batch else .error (.thrown notMappedMessage)
  else .ok (insertBarrier batch activeBar)

/-- The part of an iteration that stores the barriers to legalize. -/
def collectBatches :
    Except Exit State :=
  if settings.barrierLegalization = true ∧
      settings.activeBarrierLimit < state.slots.toVirtual.length then do
    let newBatch ← isNewBatchNeeded sim state
    let batches :=
      if newBatch then state.barrierBatchesToLegalize ++ [[]]
      else state.barrierBatchesToLegalize
    let lastBatch ← state.slots.toVirtual.foldlM (collectBatch sim.samePidTopoDep)
      (batches.getLastD [])
    return { state with barrierBatchesToLegalize := batches.dropLast ++ [lastBatch] }
  else .ok state

def updateNextReal (slots : Slots) : Slots :=
  { slots with
    nextReal := slots.toVirtual.zipIdx.foldl
      (fun nextReal (p : Int × Nat) => if p.1 = -1 then nextReal.push p.2 else nextReal)
      (RingBuffer.reset slots.toVirtual.length) }

/-- The active barriers get the ids they have once the exceeding free slots are removed. The
state of the loop is the barriers and `freeBarrierCount`. -/
def remapBarriers (limit : Nat) (slots : Slots) : List BarrierConfig :=
  (slots.toVirtual.zipIdx.foldl (fun (loop : List BarrierConfig × Nat) (p : Int × Nat) =>
    if p.1 ≠ -1 then
      (loop.1.modify p.1.toNat fun config => { config with realId := (p.2 : Int) - loop.2 },
        loop.2)
    else if limit < slots.toVirtual.length - loop.2 then (loop.1, loop.2 + 1)
    else loop) (slots.barriers, 0)).1

/-- `insert` on the set `indexesRemoved`, which is in descending order. -/
def insertIndex (indexesRemoved : List Nat) (idx : Nat) : List Nat :=
  if indexesRemoved.contains idx then indexesRemoved
  else indexesRemoved.takeWhile (idx < ·) ++ idx :: indexesRemoved.dropWhile (idx < ·)

/-- The loop that erases free slots, which notes the index of each one it erases. -/
def eraseFreeSlots (limit : Nat) : Nat → List Int → List Nat → List Int × List Nat
  | 0, toVirtual, indexesRemoved => (toVirtual, indexesRemoved)
  | fuel + 1, toVirtual, indexesRemoved =>
    match toVirtual.findIdx? (· == -1) with
    | none => (toVirtual, indexesRemoved)
    | some idx =>
      if limit < toVirtual.length then
        eraseFreeSlots limit fuel (toVirtual.eraseIdx idx) (insertIndex indexesRemoved idx)
      else (toVirtual, indexesRemoved)

def erasePrevVid (prevVidOfPhysBar : List Int) (indexToRemove : Nat) : Except Exit (List Int) :=
  if prevVidOfPhysBar.length ≤ indexToRemove then .error (.thrown "Incorrect index to remove")
  else .ok (prevVidOfPhysBar.eraseIdx indexToRemove)

/-- The end of an iteration in legalization mode: one more slot when nothing progressed, fewer
slots when some are free. -/
def resizeSlots : Except Exit State :=
  if settings.barrierLegalization then
    let freeBarriers := state.slots.toVirtual.count (-1)
    if state.progressed = false then
      if sim.samePidTopoDep = false ∧ 0 < freeBarriers then
        .error (.thrown "Simulation not progressed and there are free barriers")
      else .ok { state with
        slots := updateNextReal { state.slots with toVirtual := state.slots.toVirtual ++ [-1] }
        prevVidOfPhysBar := state.prevVidOfPhysBar ++ [-1]
        progressed := true }
    else if 0 < freeBarriers ∧ settings.activeBarrierLimit < state.slots.toVirtual.length then do
      let barriers := remapBarriers settings.activeBarrierLimit state.slots
      let (toVirtual, indexesRemoved) := eraseFreeSlots settings.activeBarrierLimit
        state.slots.toVirtual.length state.slots.toVirtual []
      let prevVidOfPhysBar ← indexesRemoved.foldlM erasePrevVid state.prevVidOfPhysBar
      return { state with
        slots := updateNextReal { state.slots with barriers := barriers, toVirtual := toVirtual }
        prevVidOfPhysBar := prevVidOfPhysBar }
    else .ok state
  else .ok state

/-! ### simulateBarriers -/

/-- The condition of the main loop. -/
def isUnfinished : Bool :=
  decide (state.bar < state.slots.barriers.length) ||
    (List.range sim.queues.length).any fun idx => decide (state.head idx < (sim.queue idx).length)

def iterate : Except Exit State := do
  let mapped ← mapBarriers sim { state with progressed := false }
  let collected ← collectBatches sim settings mapped
  let processed ← processQueues sim collected
  let resized ← resizeSlots sim settings processed
  if resized.progressed then return resized else .error .blocked

/-- One turn of the main loop. -/
def iteration : Turn State Exit :=
  if isUnfinished sim state then
    match iterate sim settings state with
    | .ok after => .next after
    | .error exit => .exit exit
  else .leave state

def allReal (limit : Nat) : RingBuffer Int :=
  (List.range limit).foldl (fun nextReal (idx : Nat) => nextReal.push (idx : Int))
    (RingBuffer.reset limit)

def initialState (limit : Nat) : State :=
  { slots :=
      { barriers := sim.barriers
        toVirtual := List.replicate limit (-1)
        nextReal := if sim.isDynamicBarriers then allReal limit else RingBuffer.reset 0 }
    prevVidOfPhysBar := List.replicate limit (-1)
    bar := 0
    heads := List.replicate sim.queues.length 0
    multiQueueDmaTaskStatus := sim.multiQueueDmaTaskStatus
    barrierBatchesToLegalize := []
    progressed := false }

/-- `simulateBarriers` on a new simulator, with the state it ends in. The fuel bounds the
iterations of the main loop. -/
def simulateBarriers (numBarriers : Option Int) (barrierLegalization : Bool)
    (fuel : Nat) : Except Exit State := do
  let limit := numBarriers.getD sim.availableBarriers
  if sim.availableBarriers < limit then
    .error (.thrown "Provided number of barriers is greater than HW limitation")
  else if limit < 0 then .error (.thrown "Can not cast")
  else
    let settings : Settings := ⟨limit.toNat, barrierLegalization⟩
    let final ← Turn.loop (iteration sim settings) fuel (initialState sim limit.toNat)
    if isUnfinished sim final then .error .outOfFuel
    else if barrierLegalization = true ∧ final.barrierBatchesToLegalize ≠ [] then
      .error .batchesToLegalize
    else return final

end NpuPlugin.BarrierSimulator
