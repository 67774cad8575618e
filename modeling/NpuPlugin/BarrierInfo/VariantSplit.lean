/-
This file models the slots that tasks take in barriers and the splitting of barriers with too many
of them, and proves that it leaves only barriers within the limits and the same pairs of producer
and consumer.
-/

import Mathlib.Algebra.BigOperators.Group.List.Basic
import Mathlib.Algebra.Ring.Nat
import NpuPlugin.BarrierInfo.Model

namespace NpuPlugin.BarrierInfo

open IncidenceTable List Nat SmallSet

variable {Queue : Type} (info : BarrierInfo Queue)

/-! ### Slots -/

/-- An index outside of the tasks takes no slot. -/
def getNumOfSlotsUsed (taskInd : Nat) : Nat :=
  (info.allTaskOps[taskInd]?.map TaskOp.slotCount).getD 0

variable (side : Side) (availableSlots maxSlotsSum : Nat) (maxSlotsSumLimitEnabled : Bool)

def getSlotCount (barrierInd : Nat) : Nat :=
  (((info.table side).row barrierInd).elements.map info.getNumOfSlotsUsed).sum

def getProducerSlotCount (barrierInd : Nat) : Nat := info.getSlotCount .update barrierInd

def getConsumerSlotCount (barrierInd : Nat) : Nat := info.getSlotCount .wait barrierInd

/-! ### Batches -/

/-- The batches that are complete, the current one and its slots. -/
structure LegalBatches where
  complete : List TaskSet
  last : TaskSet
  totalSlotCount : Nat

/-- A new batch is begun when the task does not fit. -/
def LegalBatches.add (availableSlots : Nat) (batches : LegalBatches) (taskInd : Nat) :
    LegalBatches :=
  let numSlotsUsedByTask := info.getNumOfSlotsUsed taskInd
  if batches.totalSlotCount + numSlotsUsedByTask ≤ availableSlots then
    { batches with
      last := batches.last.insert taskInd
      totalSlotCount := batches.totalSlotCount + numSlotsUsedByTask }
  else ⟨batches.complete ++ [batches.last], (∅ : TaskSet).insert taskInd, numSlotsUsedByTask⟩

def createLegalVariantBatches (tasks : TaskSet) (availableSlots : Nat) : List TaskSet :=
  let orderedTasks := tasks.elements.insertionSort (· ≤ ·)
  let batches := orderedTasks.foldl (LegalBatches.add info availableSlots) ⟨[], ∅, 0⟩
  batches.complete ++ [batches.last]

/-! ### Splitting barriers -/

def linkTasks (barrierInd : Nat) (tasks : TaskSet) : BarrierInfo Queue :=
  info.modifyTable side (·.linkAll barrierInd tasks.elements)

def addBatchBarrier (others : TaskSet) (info : BarrierInfo Queue) (batch : TaskSet) :
    BarrierInfo Queue :=
  let newBarrier := info.getNumOfVirtualBarriers
  (info.addNewBarrier.linkTasks side newBarrier batch).linkTasks side.opposite newBarrier others

/-- Replace a barrier by one for each batch of the tasks on one side. -/
def splitBarrierTasks (barrierInd availableSlots : Nat) : BarrierInfo Queue :=
  let batches := info.createLegalVariantBatches ((info.table side).row barrierInd) availableSlots
  let others := (info.table side.opposite).row barrierInd
  (batches.foldl (addBatchBarrier side others) info).resetBarrier barrierInd

/-- The maps and the barriers in the order of their operations. -/
structure BarrierWalk (Queue : Type) where
  info : BarrierInfo Queue
  barrierOps : List Nat

/-- A barrier is legal when its tasks on the side fit, or with a limit for the sum of both sides
when all of its tasks are within it. -/
def isLegalVariantConfig (barrierInd : Nat) : Bool :=
  (maxSlotsSumLimitEnabled &&
      info.getProducerSlotCount barrierInd + info.getConsumerSlotCount barrierInd ≤ maxSlotsSum) ||
    info.getSlotCount side barrierInd ≤ availableSlots

/-- One barrier operation. The new operations are placed before it. -/
def visitBarrier (walk : BarrierWalk Queue) (barrierInd : Nat) : BarrierWalk Queue :=
  if walk.info.isLegalVariantConfig side availableSlots maxSlotsSum maxSlotsSumLimitEnabled
      barrierInd then
    { walk with barrierOps := walk.barrierOps ++ [barrierInd] }
  else
    let info := walk.info.splitBarrierTasks side barrierInd availableSlots
    let newBarriers := List.range' walk.info.getNumOfVirtualBarriers
      (info.getNumOfVirtualBarriers - walk.info.getNumOfVirtualBarriers)
    ⟨info, walk.barrierOps ++ newBarriers ++ [barrierInd]⟩

/-- A walk over the operations that are there at its start: operations placed before the current
one are not visited. -/
def splitBarriersOn (walk : BarrierWalk Queue) : BarrierWalk Queue :=
  walk.barrierOps.foldl (visitBarrier side availableSlots maxSlotsSum maxSlotsSumLimitEnabled)
    ⟨walk.info, []⟩

def splitBarrierProducers (walk : BarrierWalk Queue) : BarrierWalk Queue :=
  splitBarriersOn .update availableSlots maxSlotsSum maxSlotsSumLimitEnabled walk

def splitBarrierConsumers (walk : BarrierWalk Queue) : BarrierWalk Queue :=
  splitBarriersOn .wait availableSlots maxSlotsSum maxSlotsSumLimitEnabled walk

def splitBarriersWithExceedingVariantCount (availableSlots maxSlotsSum maxAvailableSlots : Nat)
    (walk : BarrierWalk Queue) : BarrierWalk Queue :=
  let maxSlotsSumLimitEnabled := decide (maxSlotsSum < maxAvailableSlots)
  splitBarrierConsumers availableSlots maxSlotsSum maxSlotsSumLimitEnabled
    (splitBarrierProducers availableSlots maxSlotsSum maxSlotsSumLimitEnabled walk)

/-! ### The slots of sets of tasks -/

variable {info}

/-- The slots of a set of tasks. -/
def slotsOf (info : BarrierInfo Queue) (tasks : TaskSet) : Nat :=
  (tasks.elements.map info.getNumOfSlotsUsed).sum

theorem slotsOf_congr {first second : TaskSet} (same : ∀ task, task ∈ first ↔ task ∈ second) :
    info.slotsOf first = info.slotsOf second :=
  (((perm_ext_iff_of_nodup first.nodup second.nodup).mpr same).map _).sum_eq

theorem slotsOf_empty : info.slotsOf ∅ = 0 := rfl

variable {task : Nat}

theorem slotsOf_insert {tasks : TaskSet} (fresh : task ∉ tasks) :
    info.slotsOf (tasks.insert task) = info.slotsOf tasks + info.getNumOfSlotsUsed task := by
  have perm : (tasks.insert task).elements.Perm (task :: tasks.elements) := by
    refine (perm_ext_iff_of_nodup (tasks.insert task).nodup
      (nodup_cons.mpr ⟨fresh, tasks.nodup⟩)).mpr fun other => ?_
    rw [mem_cons, mem_elements, mem_insert, or_comm]
    rfl
  unfold slotsOf
  rw [(perm.map _).sum_eq, map_cons, sum_cons, Nat.add_comm]

theorem getSlotCount_eq (side : Side) (barrierInd : Nat) :
    info.getSlotCount side barrierInd = info.slotsOf ((info.table side).row barrierInd) :=
  rfl

/-! ### What the batches are -/

/-- The batches of the first tasks: together they have these tasks, and each fits. -/
structure LegalBatches.Of (info : BarrierInfo Queue) (availableSlots : Nat) (tasks : List Nat)
    (batches : LegalBatches) : Prop where
  mem_iff : ∀ task, task ∈ tasks ↔
    task ∈ batches.last ∨ ∃ batch ∈ batches.complete, task ∈ batch
  slots : batches.totalSlotCount = info.slotsOf batches.last
  last_le : batches.totalSlotCount ≤ availableSlots
  complete_le : ∀ batch ∈ batches.complete, info.slotsOf batch ≤ availableSlots

theorem LegalBatches.Of.add {availableSlots : Nat} {tasks : List Nat} {batches : LegalBatches}
    (of : batches.Of info availableSlots tasks) (fresh : task ∉ tasks)
    (fits : info.getNumOfSlotsUsed task ≤ availableSlots) :
    (LegalBatches.add info availableSlots batches task).Of info availableSlots
      (tasks ++ [task]) := by
  have absent : task ∉ batches.last := fun mem => fresh ((of.mem_iff task).mpr (.inl mem))
  unfold LegalBatches.add
  dsimp only
  split
  · next legal =>
    refine ⟨fun other => ?_, ?_, legal, of.complete_le⟩
    · rw [mem_append, of.mem_iff, mem_singleton, mem_insert]
      exact or_right_comm
    · dsimp only
      rw [slotsOf_insert absent, of.slots]
  · have single : info.slotsOf ((∅ : TaskSet).insert task) = info.getNumOfSlotsUsed task := by
      rw [slotsOf_insert not_mem_empty, slotsOf_empty, Nat.zero_add]
    refine ⟨fun other => ?_, single.symm, fits, fun batch mem => ?_⟩
    · rw [mem_append, of.mem_iff, mem_singleton, mem_insert]
      simp only [not_mem_empty, false_or, mem_append, mem_singleton, or_and_right,
        exists_or, exists_eq_left]
      rw [or_comm, or_comm (a := other ∈ batches.last)]
    · rcases mem_append.mp mem with old | last
      · exact of.complete_le batch old
      · rw [mem_singleton.mp last, ← of.slots]
        exact of.last_le

theorem createLegalVariantBatches_spec (tasks : TaskSet) (availableSlots : Nat)
    (fits : ∀ task ∈ tasks, info.getNumOfSlotsUsed task ≤ availableSlots) :
    (∀ task, task ∈ tasks ↔
        ∃ batch ∈ info.createLegalVariantBatches tasks availableSlots, task ∈ batch) ∧
      ∀ batch ∈ info.createLegalVariantBatches tasks availableSlots,
        info.slotsOf batch ≤ availableSlots := by
  have run : ∀ (rest seen : List Nat) (batches : LegalBatches), (seen ++ rest).Nodup →
      (∀ task ∈ rest, info.getNumOfSlotsUsed task ≤ availableSlots) →
      batches.Of info availableSlots seen →
      (rest.foldl (LegalBatches.add info availableSlots) batches).Of info availableSlots
        (seen ++ rest) := by
    intro rest
    induction rest with
    | nil =>
      intro seen batches _ _ of
      rw [append_nil]
      exact of
    | cons head tail ih =>
      intro seen batches distinct each of
      have split : seen ++ head :: tail = (seen ++ [head]) ++ tail := by simp
      rw [split] at distinct ⊢
      have apart := (nodup_append.mp distinct).1
      rw [nodup_append_comm] at apart
      exact ih _ _ distinct
        (forall_mem_cons.mp each).2
        (of.add (nodup_cons.mp apart).1 (each head mem_cons_self))
  have perm := perm_insertionSort (· ≤ ·) tasks.elements
  have of := run (tasks.elements.insertionSort (· ≤ ·)) [] ⟨[], ∅, 0⟩
    (perm.nodup_iff.mpr tasks.nodup) (fun task mem => fits task (perm.mem_iff.mp mem))
    ⟨by simp, rfl, Nat.zero_le _, by simp⟩
  rw [nil_append] at of
  refine ⟨fun task => ?_, fun batch mem => ?_⟩
  · rw [← mem_elements, ← perm.mem_iff, of.mem_iff]
    simp only [createLegalVariantBatches, mem_append, mem_singleton, or_and_right,
      exists_or, exists_eq_left]
    exact or_comm
  · rcases mem_append.mp mem with complete | last
    · exact of.complete_le batch complete
    · rw [mem_singleton.mp last, ← of.slots]
      exact of.last_le

variable {Queue : Type} {info : BarrierInfo Queue} {availableSlots : Nat}

/-! ### The tables of a side -/

variable (side : Side) (barrier : Nat) (tasks : TaskSet)

theorem table_addNewBarrier : info.addNewBarrier.table side = (info.table side).addRow := by
  cases side <;> rfl

theorem table_resetBarrier :
    (info.resetBarrier barrier).table side = (info.table side).clearRow barrier := by
  cases side <;> rfl

theorem Side.ne_opposite : side ≠ side.opposite := by cases side <;> exact Side.noConfusion

theorem Side.eq_or (other : Side) : other = side ∨ other = side.opposite := by
  cases side <;> cases other <;> simp [Side.opposite]

theorem table_linkTasks_self :
    (info.linkTasks side barrier tasks).table side =
      (info.table side).linkAll barrier tasks.elements :=
  table_modifyTable_self side _

variable {side : Side}

theorem table_linkTasks_ne {other : Side} (different : other ≠ side) (barrier : Nat)
    (tasks : TaskSet) : (info.linkTasks side barrier tasks).table other = info.table other :=
  table_modifyTable_ne different _

theorem getNumOfVirtualBarriers_addNewBarrier :
    info.addNewBarrier.getNumOfVirtualBarriers = info.getNumOfVirtualBarriers + 1 :=
  length_rows_addRow

theorem getNumOfVirtualBarriers_resetBarrier :
    (info.resetBarrier barrier).getNumOfVirtualBarriers = info.getNumOfVirtualBarriers :=
  length_rows_clearRow

theorem getNumOfVirtualBarriers_linkTasks :
    (info.linkTasks side barrier tasks).getNumOfVirtualBarriers = info.getNumOfVirtualBarriers :=
  getNumOfVirtualBarriers_modifyTable (length_rows_linkAll _)

variable {barrier : Nat}

theorem Valid.linkTasks (valid : info.Valid) (side : Side) {tasks : TaskSet}
    (inside : barrier < info.getNumOfVirtualBarriers)
    (each : ∀ task ∈ tasks, task < info.getNumOfTasks) :
    (info.linkTasks side barrier tasks).Valid := by
  refine valid.modifyTable (IncidenceTable.Mirrored.linkAll (valid.mirrored side) ?_ ?_)
    (length_rows_linkAll _) (length_columns_linkAll _)
  · rw [valid.barriers side]
    exact inside
  · intro task mem
    rw [valid.tasks side]
    exact each task mem

/-! ### One new barrier -/

/-- The maps with new barriers, each of which has a set of tasks on either side. -/
structure Extended (before : BarrierInfo Queue) (fresh : List (Side → TaskSet))
    (after : BarrierInfo Queue) : Prop where
  valid : after.Valid
  allTaskOps_eq : after.allTaskOps = before.allTaskOps
  barriers : after.getNumOfVirtualBarriers = before.getNumOfVirtualBarriers + fresh.length
  linked_iff : ∀ side barrier task, (after.table side).Linked barrier task ↔
    (before.table side).Linked barrier task ∨
      ∃ index tasks, fresh[index]? = some tasks ∧
        barrier = before.getNumOfVirtualBarriers + index ∧ task ∈ tasks side

/-- The tasks of a new barrier: the batch on one side, the others on the other side. -/
def batchTasks (side : Side) (others batch : TaskSet) (other : Side) : TaskSet :=
  if other = side then batch else others

theorem Extended.addBatchBarrier {fresh : List (Side → TaskSet)} {middle : BarrierInfo Queue}
    (extended : Extended info fresh middle) (side : Side) {others batch : TaskSet}
    (othersInside : ∀ task ∈ others, task < info.getNumOfTasks)
    (batchInside : ∀ task ∈ batch, task < info.getNumOfTasks) :
    Extended info (fresh ++ [batchTasks side others batch])
      (addBatchBarrier side others middle batch) := by
  have tasks : middle.getNumOfTasks = info.getNumOfTasks := congrArg length extended.allTaskOps_eq
  have room : middle.getNumOfVirtualBarriers < middle.addNewBarrier.getNumOfVirtualBarriers := by
    rw [getNumOfVirtualBarriers_addNewBarrier]
    exact Nat.lt_succ_self _
  have first : (middle.addNewBarrier.linkTasks side middle.getNumOfVirtualBarriers batch).Valid :=
    extended.valid.addNewBarrier.linkTasks side room fun task mem =>
      (batchInside task mem).trans_eq tasks.symm
  refine ⟨?_, ?_, ?_, fun other barrier task => ?_⟩
  · refine first.linkTasks side.opposite ?_ fun task mem => ?_
    · rw [getNumOfVirtualBarriers_linkTasks]
      exact room
    · unfold linkTasks
      rw [getNumOfTasks_modifyTable]
      exact (othersInside task mem).trans_eq tasks.symm
  · unfold BarrierInfo.addBatchBarrier linkTasks
    rw [allTaskOps_modifyTable, allTaskOps_modifyTable]
    exact extended.allTaskOps_eq
  · unfold BarrierInfo.addBatchBarrier
    rw [getNumOfVirtualBarriers_linkTasks, getNumOfVirtualBarriers_linkTasks,
      getNumOfVirtualBarriers_addNewBarrier, extended.barriers, length_append,
      length_singleton, Nat.add_assoc]
  · -- The new row has the tasks of the side, the other rows are as before.
    have row : ((BarrierInfo.addBatchBarrier side others middle batch).table other).Linked barrier
        task ↔ (middle.table other).Linked barrier task ∨
          barrier = middle.getNumOfVirtualBarriers ∧ task ∈ batchTasks side others batch other := by
      have bound : middle.getNumOfVirtualBarriers <
          (middle.addNewBarrier.table other).rows.length := by
        rw [extended.valid.addNewBarrier.barriers other]
        exact room
      unfold BarrierInfo.addBatchBarrier
      rcases side.eq_or other with same | opposite
      · rw [same, table_linkTasks_ne side.ne_opposite, table_linkTasks_self,
          linked_linkAll _ (same ▸ bound), table_addNewBarrier,
          linked_addRow, batchTasks, if_pos rfl]
        rfl
      · rw [opposite, table_linkTasks_self, table_linkTasks_ne side.ne_opposite.symm,
          linked_linkAll _ (opposite ▸ bound), table_addNewBarrier,
          linked_addRow, batchTasks, if_neg side.ne_opposite.symm]
        rfl
    rw [row, extended.linked_iff, extended.barriers, or_assoc]
    refine or_congr_right ?_
    constructor
    · rintro (⟨index, set, found, place, mem⟩ | ⟨place, mem⟩)
      · refine ⟨index, set, ?_, place, mem⟩
        rw [getElem?_append_left (List.getElem?_eq_some_iff.mp found).1]
        exact found
      · exact ⟨fresh.length, _, getElem?_concat_length, place, mem⟩
    · rintro ⟨index, set, found, place, mem⟩
      rw [getElem?_append] at found
      split at found
      · exact .inl ⟨index, set, found, place, mem⟩
      · next outside =>
        right
        have zero : index = fresh.length := by
          by_contra different
          rw [getElem?_eq_none] at found
          · cases found
          · rw [length_singleton]
            omega
        rw [zero, Nat.sub_self] at found
        rw [← Option.some.inj found] at mem
        exact ⟨zero ▸ place, mem⟩

theorem extended_refl (valid : info.Valid) : Extended info [] info :=
  ⟨valid, rfl, rfl, fun side barrier task => by simp⟩

theorem foldl_addBatchBarrier (valid : info.Valid) (side : Side) {others : TaskSet}
    (othersInside : ∀ task ∈ others, task < info.getNumOfTasks) (batches : List TaskSet)
    (inside : ∀ batch ∈ batches, ∀ task ∈ batch, task < info.getNumOfTasks) :
    Extended info (batches.map (batchTasks side others))
      (batches.foldl (addBatchBarrier side others) info) := by
  have run : ∀ (rest seen : List TaskSet) (middle : BarrierInfo Queue),
      (∀ batch ∈ rest, ∀ task ∈ batch, task < info.getNumOfTasks) →
      Extended info (seen.map (batchTasks side others)) middle →
      Extended info ((seen ++ rest).map (batchTasks side others))
        (rest.foldl (BarrierInfo.addBatchBarrier side others) middle) := by
    intro rest
    induction rest with
    | nil =>
      intro seen middle _ extended
      rw [append_nil]
      exact extended
    | cons head tail ih =>
      intro seen middle each extended
      have split : seen ++ head :: tail = (seen ++ [head]) ++ tail := by simp
      rw [foldl_cons, split]
      refine ih _ _
        (forall_mem_cons.mp each).2 ?_
      rw [map_append]
      exact extended.addBatchBarrier side othersInside (each head mem_cons_self)
  exact run batches [] info inside (extended_refl valid)

/-! ### Slots of barriers with the same tasks -/

variable {first second : BarrierInfo Queue} {other : Nat}

section

variable (same : first.allTaskOps = second.allTaskOps)
include same

theorem getNumOfSlotsUsed_congr (task : Nat) :
    first.getNumOfSlotsUsed task = second.getNumOfSlotsUsed task := by
  unfold getNumOfSlotsUsed
  rw [same]

theorem slotsOf_eq_of_allTaskOps (tasks : TaskSet) :
    first.slotsOf tasks = second.slotsOf tasks := by
  unfold slotsOf
  rw [funext (getNumOfSlotsUsed_congr same)]

theorem getSlotCount_congr (linked : ∀ task, (first.table side).Linked barrier task ↔
      (second.table side).Linked other task) :
    first.getSlotCount side barrier = second.getSlotCount side other := by
  rw [getSlotCount_eq, getSlotCount_eq, slotsOf_eq_of_allTaskOps same]
  exact slotsOf_congr linked

end

theorem getSlotCount_of_not_linked (none : ∀ task, ¬ (info.table side).Linked barrier task) :
    info.getSlotCount side barrier = 0 := by
  exact slotsOf_congr fun task => iff_of_false (none task) SmallSet.not_mem_empty

theorem isLegalVariantConfig_congr (same : first.allTaskOps = second.allTaskOps)
    (linked : ∀ side task, (first.table side).Linked barrier task ↔
      (second.table side).Linked other task) (side : Side) (availableSlots maxSlotsSum : Nat)
    (limit : Bool) :
    first.isLegalVariantConfig side availableSlots maxSlotsSum limit barrier =
      second.isLegalVariantConfig side availableSlots maxSlotsSum limit other := by
  unfold isLegalVariantConfig getProducerSlotCount getConsumerSlotCount
  rw [getSlotCount_congr same (linked .update), getSlotCount_congr same (linked .wait),
    getSlotCount_congr same (linked side)]

/-! ### One barrier -/

/-- A barrier has been replaced by new ones, each with a part of its tasks on one side that fits
and with all tasks of the other side. -/
structure Replaced (before : BarrierInfo Queue) (side : Side) (barrier availableSlots : Nat)
    (after : BarrierInfo Queue) : Prop where
  valid : after.Valid
  allTaskOps_eq : after.allTaskOps = before.allTaskOps
  more : before.getNumOfVirtualBarriers ≤ after.getNumOfVirtualBarriers
  old : ∀ other < before.getNumOfVirtualBarriers, other ≠ barrier → ∀ any task,
    (after.table any).Linked other task ↔ (before.table any).Linked other task
  reset : ∀ any task, ¬ (after.table any).Linked barrier task
  fresh : ∀ other, before.getNumOfVirtualBarriers ≤ other →
    other < after.getNumOfVirtualBarriers → after.getSlotCount side other ≤ availableSlots ∧
      (∀ task, (after.table side).Linked other task → (before.table side).Linked barrier task) ∧
      ∀ task, (after.table side.opposite).Linked other task ↔
        (before.table side.opposite).Linked barrier task
  covered : ∀ task, (before.table side).Linked barrier task →
    ∃ other, before.getNumOfVirtualBarriers ≤ other ∧ (after.table side).Linked other task

theorem splitBarrierTasks_replaced (valid : info.Valid)
    (fits : ∀ task, info.getNumOfSlotsUsed task ≤ availableSlots) (side : Side)
    (inside : barrier < info.getNumOfVirtualBarriers) :
    Replaced info side barrier availableSlots
      (info.splitBarrierTasks side barrier availableSlots) := by
  let batches := info.createLegalVariantBatches ((info.table side).row barrier) availableSlots
  let others := (info.table side.opposite).row barrier
  obtain ⟨covers, slots⟩ : (∀ task, (info.table side).Linked barrier task ↔
      ∃ batch ∈ batches, task ∈ batch) ∧
        ∀ batch ∈ batches, info.slotsOf batch ≤ availableSlots :=
    createLegalVariantBatches_spec _ availableSlots fun task _ => fits task
  have extended : Extended info (batches.map (batchTasks side others))
      (batches.foldl (addBatchBarrier side others) info) :=
    foldl_addBatchBarrier valid side
      (fun _ (mem : (info.table side.opposite).Linked barrier _) =>
        valid.task_lt side.opposite mem) batches
      fun batch mem task inBatch => valid.task_lt side
        ((covers task).mpr ⟨batch, mem, inBatch⟩)
  have linked : ∀ any other task,
      ((info.splitBarrierTasks side barrier availableSlots).table any).Linked other task ↔
        ((batches.foldl (addBatchBarrier side others) info).table any).Linked other task ∧
          other ≠ barrier := by
    intro any other task
    unfold splitBarrierTasks
    rw [table_resetBarrier, linked_clearRow]
  have count : (info.splitBarrierTasks side barrier availableSlots).getNumOfVirtualBarriers =
      info.getNumOfVirtualBarriers + batches.length := by
    unfold splitBarrierTasks
    rw [getNumOfVirtualBarriers_resetBarrier, extended.barriers, length_map]
  have tasks : (info.splitBarrierTasks side barrier availableSlots).allTaskOps = info.allTaskOps :=
    extended.allTaskOps_eq
  -- The tasks of a new barrier are those of its batch and the others.
  have new : ∀ index batch, batches[index]? = some batch → ∀ any task,
      ((info.splitBarrierTasks side barrier availableSlots).table any).Linked
          (info.getNumOfVirtualBarriers + index) task ↔
        task ∈ batchTasks side others batch any := by
    intro index batch found any task
    rw [linked, extended.linked_iff, and_iff_left (by omega)]
    have foundTasks : (batches.map (batchTasks side others))[index]? =
        some (batchTasks side others batch) := by
      rw [getElem?_map, found, Option.map_some]
    constructor
    · rintro (old | ⟨position, set, located, place, mem⟩)
      · exact absurd (valid.barrier_lt any old) (by omega)
      · have same : position = index := by omega
        rw [same, foundTasks] at located
        exact Option.some.inj located ▸ mem
    · exact fun mem => .inr ⟨index, _, foundTasks, rfl, mem⟩
  refine ⟨extended.valid.resetBarrier, tasks, by omega, ?_, ?_, ?_, ?_⟩
  · intro other small different any task
    rw [linked, extended.linked_iff, and_iff_left different, or_iff_left]
    rintro ⟨index, _, _, place, _⟩
    omega
  · intro any task present
    exact ((linked any barrier task).mp present).2 rfl
  · intro other above below
    obtain ⟨index, place⟩ := Nat.exists_eq_add_of_le above
    have small : index < batches.length := by omega
    have found := getElem?_eq_getElem small
    have own := new index _ found side
    have opposite := new index _ found side.opposite
    rw [batchTasks, if_pos rfl] at own
    rw [batchTasks, if_neg side.ne_opposite.symm] at opposite
    rw [place]
    refine ⟨?_, fun task present => ?_, opposite⟩
    · rw [getSlotCount_eq, slotsOf_eq_of_allTaskOps tasks, slotsOf_congr own]
      exact slots _ (getElem_mem small)
    · exact (covers task).mpr ⟨_, getElem_mem small, (own task).mp present⟩
  · intro task present
    obtain ⟨batch, mem, inBatch⟩ := (covers task).mp present
    obtain ⟨index, found⟩ := mem_iff_getElem?.mp mem
    refine ⟨info.getNumOfVirtualBarriers + index, le_add_right _ _, ?_⟩
    refine (new index batch found side task).mpr ?_
    rw [batchTasks, if_pos rfl]
    exact inBatch

/-- A task for either side: the producer and the consumer of a pair. -/
def ends (producer consumer : Nat) : Side → Nat
  | .update => producer
  | .wait => consumer

theorem controls_iff_ends (producer consumer : Nat) :
    info.Controls producer consumer ↔
      ∃ barrier, ∀ side, (info.table side).Linked barrier (ends producer consumer side) := by
  refine exists_congr fun barrier => ⟨fun both side => ?_, fun all => ⟨all .update, all .wait⟩⟩
  cases side
  · exact both.1
  · exact both.2

theorem Replaced.controls_iff {after : BarrierInfo Queue}
    (replaced : Replaced info side barrier availableSlots after) (valid : info.Valid)
    (producer consumer : Nat) :
    after.Controls producer consumer ↔ info.Controls producer consumer := by
  rw [controls_iff_ends, controls_iff_ends]
  constructor
  · rintro ⟨other, linked⟩
    by_cases small : other < info.getNumOfVirtualBarriers
    · have different : other ≠ barrier := fun same =>
        replaced.reset side _ (same ▸ linked side)
      exact ⟨other, fun any => (replaced.old other small different any _).mp (linked any)⟩
    · obtain ⟨_, own, opposite⟩ := replaced.fresh other (not_lt.mp small)
        (replaced.valid.barrier_lt side (linked side))
      refine ⟨barrier, fun any => ?_⟩
      rcases side.eq_or any with same | same
      · rw [same]
        exact own _ (linked side)
      · rw [same]
        exact (opposite _).mp (linked side.opposite)
  · rintro ⟨other, linked⟩
    by_cases same : other = barrier
    · rw [same] at linked
      obtain ⟨new, above, present⟩ := replaced.covered _ (linked side)
      obtain ⟨_, _, opposite⟩ := replaced.fresh new above (replaced.valid.barrier_lt side present)
      refine ⟨new, fun any => ?_⟩
      rcases side.eq_or any with equal | equal
      · rw [equal]
        exact present
      · rw [equal]
        exact (opposite _).mpr (linked side.opposite)
    · have small := valid.barrier_lt side (linked side)
      exact ⟨other, fun any => (replaced.old other small same any _).mpr (linked any)⟩

/-! ### The walk -/

/-- Where the tasks of a barrier come from: it is a legal barrier from before the walk, it has a
batch of the tasks of one, or it has been reset. -/
inductive Origin (before : BarrierInfo Queue) (side : Side) (availableSlots maxSlotsSum : Nat)
    (limit : Bool) (after : BarrierInfo Queue) (barrier : Nat) : Prop
  | kept (old : Nat)
      (legal : before.isLegalVariantConfig side availableSlots maxSlotsSum limit old = true)
      (linked : ∀ other task, (after.table other).Linked barrier task ↔
        (before.table other).Linked old task)
  | batch (old : Nat)
      (illegal : before.isLegalVariantConfig side availableSlots maxSlotsSum limit old = false)
      (slots : after.getSlotCount side barrier ≤ availableSlots)
      (linked : ∀ task, (after.table side.opposite).Linked barrier task ↔
        (before.table side.opposite).Linked old task)
  | reset (none : ∀ other task, ¬ (after.table other).Linked barrier task)

/-- What a walk has done when it has visited some of the barriers. -/
structure Visited (before : BarrierInfo Queue) (side : Side) (availableSlots maxSlotsSum : Nat)
    (limit : Bool) (seen : List Nat) (walk : BarrierWalk Queue) : Prop where
  valid : walk.info.Valid
  allTaskOps_eq : walk.info.allTaskOps = before.allTaskOps
  more : before.getNumOfVirtualBarriers ≤ walk.info.getNumOfVirtualBarriers
  pending : ∀ barrier < before.getNumOfVirtualBarriers, barrier ∉ seen → ∀ other task,
    (walk.info.table other).Linked barrier task ↔ (before.table other).Linked barrier task
  origin : ∀ barrier < walk.info.getNumOfVirtualBarriers,
    barrier ∈ seen ∨ before.getNumOfVirtualBarriers ≤ barrier →
      Origin before side availableSlots maxSlotsSum limit walk.info barrier
  controls : ∀ producer consumer,
    walk.info.Controls producer consumer ↔ before.Controls producer consumer
  ops : walk.barrierOps.Perm (seen ++ List.range' before.getNumOfVirtualBarriers
    (walk.info.getNumOfVirtualBarriers - before.getNumOfVirtualBarriers))

section Step

variable {side : Side} {maxSlotsSum : Nat} {limit : Bool} {seen : List Nat}
  {walk : BarrierWalk Queue} {barrier : Nat}

section

variable (visited : Visited info side availableSlots maxSlotsSum limit seen walk)
  (inside : barrier < info.getNumOfVirtualBarriers) (unseen : barrier ∉ seen)
include visited inside unseen

theorem Visited.isLegal_eq :
    walk.info.isLegalVariantConfig side availableSlots maxSlotsSum limit barrier =
      info.isLegalVariantConfig side availableSlots maxSlotsSum limit barrier :=
  isLegalVariantConfig_congr visited.allTaskOps_eq (visited.pending barrier inside unseen) _ _ _ _

theorem Visited.skip
    (legal : walk.info.isLegalVariantConfig side availableSlots maxSlotsSum limit barrier = true) :
    Visited info side availableSlots maxSlotsSum limit (seen ++ [barrier])
      { walk with barrierOps := walk.barrierOps ++ [barrier] } := by
  refine ⟨visited.valid, visited.allTaskOps_eq, visited.more, ?_, ?_, visited.controls, ?_⟩
  · intro other small fresh
    exact visited.pending other small fun mem => fresh (mem_append_left _ mem)
  · intro other small known
    by_cases same : other = barrier
    · rw [same]
      exact .kept barrier (visited.isLegal_eq inside unseen ▸ legal)
        (visited.pending barrier inside unseen)
    · refine visited.origin other small (known.imp_left fun mem => ?_)
      rcases mem_append.mp mem with old | last
      · exact old
      · exact absurd (mem_singleton.mp last) same
  · have perm := (visited.ops.append_right [barrier])
    rw [append_assoc] at perm ⊢
    exact perm.trans (List.Perm.append_left seen perm_append_comm)

end

theorem Origin.congr {after final : BarrierInfo Queue}
    (origin : Origin info side availableSlots maxSlotsSum limit after barrier)
    (same : final.allTaskOps = after.allTaskOps)
    (linked : ∀ side task, (final.table side).Linked other task ↔
      (after.table side).Linked barrier task) :
    Origin info side availableSlots maxSlotsSum limit final other := by
  cases origin with
  | kept old legal kept =>
    exact .kept old legal fun side task => (linked side task).trans (kept side task)
  | batch old illegal slots kept =>
    refine .batch old illegal ?_ fun task => (linked _ task).trans (kept task)
    rw [getSlotCount_congr same (linked side)]
    exact slots
  | reset none => exact .reset fun side task => (linked side task).not.mpr (none side task)

theorem Visited.split (visited : Visited info side availableSlots maxSlotsSum limit seen walk)
    (fits : ∀ task, info.getNumOfSlotsUsed task ≤ availableSlots)
    (inside : barrier < info.getNumOfVirtualBarriers) (unseen : barrier ∉ seen)
    (illegal : walk.info.isLegalVariantConfig side availableSlots maxSlotsSum limit barrier =
      false) :
    Visited info side availableSlots maxSlotsSum limit (seen ++ [barrier])
      (let after := walk.info.splitBarrierTasks side barrier availableSlots
      ⟨after, walk.barrierOps ++ List.range' walk.info.getNumOfVirtualBarriers
        (after.getNumOfVirtualBarriers - walk.info.getNumOfVirtualBarriers) ++ [barrier]⟩) := by
  have fitsHere : ∀ task, walk.info.getNumOfSlotsUsed task ≤ availableSlots := by
    intro task
    rw [getNumOfSlotsUsed_congr visited.allTaskOps_eq]
    exact fits task
  have small := inside.trans_le visited.more
  have replaced := splitBarrierTasks_replaced visited.valid fitsHere side small
  have pending := visited.pending barrier inside unseen
  refine ⟨replaced.valid, replaced.allTaskOps_eq.trans visited.allTaskOps_eq,
    visited.more.trans replaced.more, ?_, ?_, ?_, ?_⟩
  · intro other otherInside fresh any task
    rw [mem_append, mem_singleton, not_or] at fresh
    exact (replaced.old other (otherInside.trans_le visited.more) fresh.2 any task).trans
      (visited.pending other otherInside fresh.1 any task)
  · intro other below known
    by_cases same : other = barrier
    · rw [same]
      exact .reset replaced.reset
    · by_cases old : other < walk.info.getNumOfVirtualBarriers
      · refine (visited.origin other old (known.imp_left fun mem => ?_)).congr
          replaced.allTaskOps_eq (replaced.old other old same)
        exact (mem_append.mp mem).resolve_right fun last => same (mem_singleton.mp last)
      · obtain ⟨slots, _, opposite⟩ := replaced.fresh other (not_lt.mp old) below
        exact .batch barrier (visited.isLegal_eq inside unseen ▸ illegal) slots
          fun task => (opposite task).trans (pending side.opposite task)
  · intro producer consumer
    rw [replaced.controls_iff visited.valid, visited.controls]
  · have more := visited.more
    have still := replaced.more
    have parts : range' info.getNumOfVirtualBarriers
        ((walk.info.splitBarrierTasks side barrier availableSlots).getNumOfVirtualBarriers -
          info.getNumOfVirtualBarriers) =
        range' info.getNumOfVirtualBarriers
            (walk.info.getNumOfVirtualBarriers - info.getNumOfVirtualBarriers) ++
          range' walk.info.getNumOfVirtualBarriers
            ((walk.info.splitBarrierTasks side barrier availableSlots).getNumOfVirtualBarriers -
              walk.info.getNumOfVirtualBarriers) := by
      rw [range'_eq_append_iff]
      refine ⟨walk.info.getNumOfVirtualBarriers - info.getNumOfVirtualBarriers, by omega, rfl, ?_⟩
      congr 1 <;> omega
    rw [parts]
    have perm := (visited.ops.append_right (range' walk.info.getNumOfVirtualBarriers
      ((walk.info.splitBarrierTasks side barrier availableSlots).getNumOfVirtualBarriers -
        walk.info.getNumOfVirtualBarriers))).append_right [barrier]
    refine perm.trans ?_
    rw [append_assoc, append_assoc, append_assoc]
    refine List.Perm.append_left seen ?_
    rw [← append_assoc]
    exact perm_append_comm

end Step

variable {maxSlotsSum : Nat} {limit : Bool}

theorem splitBarriersOn_visited {walk : BarrierWalk Queue} (valid : walk.info.Valid)
    (fits : ∀ task, walk.info.getNumOfSlotsUsed task ≤ availableSlots)
    (declared : walk.barrierOps.Perm (List.range walk.info.getNumOfVirtualBarriers)) :
    Visited walk.info side availableSlots maxSlotsSum limit walk.barrierOps
      (splitBarriersOn side availableSlots maxSlotsSum limit walk) := by
  have run : ∀ (rest seen : List Nat) (current : BarrierWalk Queue), (seen ++ rest).Nodup →
      (∀ barrier ∈ rest, barrier < walk.info.getNumOfVirtualBarriers) →
      Visited walk.info side availableSlots maxSlotsSum limit seen current →
      Visited walk.info side availableSlots maxSlotsSum limit (seen ++ rest)
        (rest.foldl (visitBarrier side availableSlots maxSlotsSum limit) current) := by
    intro rest
    induction rest with
    | nil =>
      intro seen current _ _ visited
      rw [append_nil]
      exact visited
    | cons head tail ih =>
      intro seen current distinct inside visited
      have split : seen ++ head :: tail = (seen ++ [head]) ++ tail := by simp
      rw [foldl_cons, split]
      rw [split] at distinct
      have apart := (nodup_append.mp distinct).1
      rw [nodup_append_comm] at apart
      have unseen := (nodup_cons.mp apart).1
      have small := inside head mem_cons_self
      refine ih _ _ distinct
        (forall_mem_cons.mp inside).2 ?_
      unfold visitBarrier
      split
      · next legal => exact visited.skip small unseen legal
      · next illegal => exact visited.split fits small unseen (Bool.eq_false_of_not_eq_true illegal)
  refine run walk.barrierOps [] ⟨walk.info, []⟩ (declared.nodup_iff.mpr nodup_range)
    (fun barrier mem => mem_range.mp (declared.mem_iff.mp mem)) ?_
  refine ⟨valid, rfl, le_rfl, fun _ _ _ _ _ => Iff.rfl, fun barrier inside known => ?_,
    fun _ _ => Iff.rfl, ?_⟩
  · rcases known with mem | outside
    · exact absurd mem not_mem_nil
    · exact absurd inside outside.not_gt
  · dsimp only
    rw [Nat.sub_self]
    exact .nil

variable {maxSlotsSum : Nat} {limit : Bool}

theorem Visited.declared {before after : BarrierWalk Queue}
    (visited : Visited before.info side availableSlots maxSlotsSum limit before.barrierOps after)
    (declared : before.barrierOps.Perm (List.range before.info.getNumOfVirtualBarriers)) :
    after.barrierOps.Perm (List.range after.info.getNumOfVirtualBarriers) := by
  refine visited.ops.trans ((declared.append_right _).trans ?_)
  have more := visited.more
  rw [range_eq_range', range_eq_range']
  refine List.Perm.of_eq (Eq.symm ?_)
  rw [range'_eq_append_iff]
  refine ⟨before.info.getNumOfVirtualBarriers, more, rfl, ?_⟩
  rw [zero_add, mul_one]

theorem Visited.origin_of_declared {before after : BarrierWalk Queue}
    (visited : Visited before.info side availableSlots maxSlotsSum limit before.barrierOps after)
    (declared : before.barrierOps.Perm (List.range before.info.getNumOfVirtualBarriers))
    (inside : barrier < after.info.getNumOfVirtualBarriers) :
    Origin before.info side availableSlots maxSlotsSum limit after.info barrier := by
  refine visited.origin barrier inside ?_
  rcases lt_or_ge barrier before.info.getNumOfVirtualBarriers with old | new
  · exact .inl (declared.mem_iff.mpr (mem_range.mpr old))
  · exact .inr new

/-! ### Both walks -/

variable {maxSlotsSum : Nat} {limit : Bool}

theorem isLegalVariantConfig_iff :
    info.isLegalVariantConfig side availableSlots maxSlotsSum limit barrier = true ↔
      limit = true ∧ info.getProducerSlotCount barrier + info.getConsumerSlotCount barrier ≤
          maxSlotsSum ∨ info.getSlotCount side barrier ≤ availableSlots := by
  unfold isLegalVariantConfig
  rw [Bool.or_eq_true, Bool.and_eq_true, decide_eq_true_eq, decide_eq_true_eq]

theorem Origin.isLegal {after : BarrierInfo Queue}
    (origin : Origin info side availableSlots maxSlotsSum limit after barrier)
    (same : after.allTaskOps = info.allTaskOps) :
    after.isLegalVariantConfig side availableSlots maxSlotsSum limit barrier = true := by
  cases origin with
  | kept old legal linked => exact isLegalVariantConfig_congr same linked _ _ _ _ ▸ legal
  | batch old illegal slots linked => exact isLegalVariantConfig_iff.mpr (.inr slots)
  | reset none =>
    refine isLegalVariantConfig_iff.mpr (.inr ?_)
    rw [getSlotCount_of_not_linked (none side)]
    exact zero_le _

theorem Origin.producers {after : BarrierInfo Queue}
    (origin : Origin info .wait availableSlots maxSlotsSum limit after barrier)
    (same : after.allTaskOps = info.allTaskOps)
    (legal : ∀ old, info.isLegalVariantConfig .update availableSlots maxSlotsSum limit old = true) :
    after.isLegalVariantConfig .update availableSlots maxSlotsSum limit barrier = true := by
  cases origin with
  | kept old _ linked => exact isLegalVariantConfig_congr same linked _ _ _ _ ▸ legal old
  | batch old illegal slots linked =>
    refine isLegalVariantConfig_iff.mpr (.inr ?_)
    have producers : after.getSlotCount .update barrier = info.getSlotCount .update old :=
      getSlotCount_congr same linked
    rw [producers]
    rcases isLegalVariantConfig_iff.mp (legal old) with sum | fits
    · exact Bool.noConfusion (illegal.symm.trans (isLegalVariantConfig_iff.mpr (.inl sum)))
    · exact fits
  | reset none =>
    refine isLegalVariantConfig_iff.mpr (.inr ?_)
    rw [getSlotCount_of_not_linked (none .update)]
    exact zero_le _

theorem isLegalVariantConfig_of_outside (valid : info.Valid)
    (outside : info.getNumOfVirtualBarriers ≤ barrier) :
    info.isLegalVariantConfig side availableSlots maxSlotsSum limit barrier = true := by
  refine isLegalVariantConfig_iff.mpr (.inr ?_)
  rw [getSlotCount_of_not_linked fun task linked =>
    absurd (valid.barrier_lt side linked) outside.not_gt]
  exact zero_le _

/-- The barriers that are left are within the limits, and the tasks are ordered directly as they
were before. -/
theorem splitBarriersWithExceedingVariantCount_spec (walk : BarrierWalk Queue)
    (availableSlots maxSlotsSum maxAvailableSlots : Nat) (valid : walk.info.Valid)
    (declared : walk.barrierOps.Perm (List.range walk.info.getNumOfVirtualBarriers))
    (fits : ∀ task, walk.info.getNumOfSlotsUsed task ≤ availableSlots)
    (twice : 2 * availableSlots ≤ maxSlotsSum) :
    let after := (splitBarriersWithExceedingVariantCount availableSlots maxSlotsSum
      maxAvailableSlots walk).info
    (∀ barrier < after.getNumOfVirtualBarriers,
        if maxSlotsSum < maxAvailableSlots then
          after.getProducerSlotCount barrier + after.getConsumerSlotCount barrier ≤ maxSlotsSum
        else
          after.getProducerSlotCount barrier ≤ availableSlots ∧
            after.getConsumerSlotCount barrier ≤ availableSlots) ∧
      ∀ producer consumer,
        after.Controls producer consumer ↔ walk.info.Controls producer consumer := by
  let limit := decide (maxSlotsSum < maxAvailableSlots)
  let middle := splitBarrierProducers availableSlots maxSlotsSum limit walk
  have first : Visited walk.info .update availableSlots maxSlotsSum limit walk.barrierOps middle :=
    splitBarriersOn_visited valid fits declared
  have middleDeclared := first.declared declared
  have middleFits : ∀ task, middle.info.getNumOfSlotsUsed task ≤ availableSlots := by
    intro task
    rw [getNumOfSlotsUsed_congr first.allTaskOps_eq]
    exact fits task
  have second : Visited middle.info .wait availableSlots maxSlotsSum limit middle.barrierOps
      (splitBarrierConsumers availableSlots maxSlotsSum limit middle) :=
    splitBarriersOn_visited first.valid middleFits middleDeclared
  have middleLegal : ∀ barrier, middle.info.isLegalVariantConfig .update availableSlots maxSlotsSum
      limit barrier = true := by
    intro barrier
    rcases lt_or_ge barrier middle.info.getNumOfVirtualBarriers with inside | outside
    · exact (first.origin_of_declared declared inside).isLegal first.allTaskOps_eq
    · exact isLegalVariantConfig_of_outside first.valid outside
  refine ⟨fun barrier inside => ?_, fun producer consumer =>
    (second.controls producer consumer).trans (first.controls producer consumer)⟩
  have origin := second.origin_of_declared middleDeclared inside
  have consumers := isLegalVariantConfig_iff.mp (origin.isLegal second.allTaskOps_eq)
  have producers := isLegalVariantConfig_iff.mp (origin.producers second.allTaskOps_eq middleLegal)
  split
  · rcases consumers with sum | fewConsumers
    · exact sum.2
    · rcases producers with sum | fewProducers
      · exact sum.2
      · exact (Nat.add_le_add fewProducers fewConsumers).trans (Nat.two_mul _ ▸ twice)
  · next unlimited =>
    have off : limit ≠ true := fun on => unlimited (of_decide_eq_true on)
    exact ⟨producers.resolve_left fun sum => off sum.1, consumers.resolve_left fun sum => off sum.1⟩

/-- Three tasks update a barrier for which three others wait. -/
def sharedByThree : List (TaskOp Nat) :=
  List.replicate 3 ⟨0, 1, [], [0], false⟩ ++ List.replicate 3 ⟨0, 1, [0], [], false⟩

theorem splitBarriersWithExceedingVariantCount_spec_three : ∃ info after : BarrierInfo Nat,
    buildBarrierMaps sharedByThree 1 = .ok info ∧
      after = (splitBarriersWithExceedingVariantCount 2 4 4 ⟨info, [0]⟩).info ∧
      ∀ barrier < after.getNumOfVirtualBarriers,
        after.getProducerSlotCount barrier ≤ 2 ∧ after.getConsumerSlotCount barrier ≤ 2 := by
  obtain ⟨info, built, checked⟩ : ∃ info : BarrierInfo Nat,
      buildBarrierMaps sharedByThree 1 = .ok info ∧
        decide (info.getNumOfVirtualBarriers = 1) = true := Run.exists_ok _ _ (by decide)
  obtain ⟨valid, tasks⟩ := buildBarrierMaps_valid built
  have declared : [0].Perm (range info.getNumOfVirtualBarriers) := by
    rw [of_decide_eq_true checked]
    exact .refl _
  have fits : ∀ task, info.getNumOfSlotsUsed task ≤ 2 := by
    intro task
    unfold getNumOfSlotsUsed
    rw [tasks]
    cases found : sharedByThree[task]? with
    | none => exact zero_le _
    | some taskOp =>
      have each : ∀ taskOp ∈ sharedByThree, taskOp.slotCount ≤ 2 := by decide
      exact each taskOp (mem_of_getElem? found)
  exact ⟨info, _, built, rfl, fun barrier inside =>
    (splitBarriersWithExceedingVariantCount_spec ⟨info, [0]⟩ 2 4 4 valid declared fits
      le_rfl).1 barrier inside⟩

end NpuPlugin.BarrierInfo
