/-
This file models `ensureTasksDrivenBySingleBarrier`. A task that waits for several barriers gets one
with all of their producers, and when these take too many slots they are divided into batches, each
of which waits for the one before it.
-/

import Mathlib.Algebra.Order.BigOperators.Group.List
import Mathlib.Algebra.Order.Ring.Nat
import NpuPlugin.BarrierInfo.VariantSplit

namespace NpuPlugin.BarrierInfo

open List Nat SmallSet

/-- `outOfFuel` stands for a loop that has not ended. -/
inductive SingleWaitFailure
  | emptyParallelConsumers
  | identicalBatchOfTasks
  | outOfFuel
deriving DecidableEq, Repr

variable {Queue : Type} (info : BarrierInfo Queue)

/-! ### Producers -/

/-- Whether tasks fit, given the slots of the tasks before them. -/
def fitWithin (availableSlots : Nat) : List Nat → Nat → Bool
  | [], _ => true
  | producerInd :: rest, producerSlotCount =>
    let producerSlotCount := producerSlotCount + info.getNumOfSlotsUsed producerInd
    if availableSlots < producerSlotCount then false
    else fitWithin availableSlots rest producerSlotCount

def canMergeBarriersForTasks (producers : TaskSet) (availableSlots : Nat) : Bool :=
  info.fitWithin availableSlots producers.elements 0

/-- An index is less than the one of an empty set. -/
def getMaxEntry (entries : TaskSet) : Option Nat := entries.elements.max?

def getMinEntry (entries : TaskSet) : Nat := entries.elements.min?.getD 0

/-- `prevLastUserInd >= firstUserInd`. -/
def violatesOrder : Option Nat → Nat → Bool
  | none, _ => true
  | some prevLastUserInd, firstUserInd => firstUserInd ≤ prevLastUserInd

/-- The batches of the producers of one barrier. -/
def batchesOf (barrierProducers : TaskSet) (availableSlots : Nat) : List TaskSet :=
  if info.canMergeBarriersForTasks barrierProducers availableSlots then [barrierProducers]
  else info.createLegalVariantBatches barrierProducers availableSlots

/-- The barriers behind the first one; `complete` are the batches in front of the last one. -/
def extendProducerBatches (availableSlots : Nat) :
    List Nat → List TaskSet → TaskSet → Option Nat → List TaskSet
  | [], complete, last, _ => complete ++ [last]
  | waitBarrierInd :: rest, complete, last, prevLastUserInd =>
    let barrierProducers := info.getBarrierProducers waitBarrierInd
    if violatesOrder prevLastUserInd (getMinEntry barrierProducers) then []
    else
      let currentBatchPlusBarrierProducers := last.union barrierProducers
      if info.canMergeBarriersForTasks currentBatchPlusBarrierProducers availableSlots then
        extendProducerBatches availableSlots rest complete currentBatchPlusBarrierProducers
          (getMaxEntry barrierProducers)
      else
        let legalBatches := complete ++ [last] ++ info.batchesOf barrierProducers availableSlots
        extendProducerBatches availableSlots rest legalBatches.dropLast
          (legalBatches.getLastD ∅) (getMaxEntry barrierProducers)

/-- No batches when the producers of a barrier are not all behind those of the one before it. -/
def createProducerBatches (waitBarriers : TaskSet) (availableSlots : Nat) : List TaskSet :=
  match waitBarriers.elements with
  | [] => []
  | waitBarrierInd :: rest =>
    let barrierProducers := info.getBarrierProducers waitBarrierInd
    let legalBatches := info.batchesOf barrierProducers availableSlots
    info.extendProducerBatches availableSlots rest legalBatches.dropLast
      (legalBatches.getLastD ∅) (getMaxEntry barrierProducers)

/-! ### One task -/

/-- `getBarriersProducerTasks` for the producers, and the loop that collects the consumers. -/
def parallelTasks (side : Side) (waitBarriers : TaskSet) : TaskSet :=
  waitBarriers.elements.foldl (fun tasks waitBarrierInd =>
    tasks.union ((info.table side).row waitBarrierInd)) ∅

/-- `getBarriersConsumerTasks`: consumers with the same wait barriers, until one does not fit. -/
def getBarriersConsumerTasks (waitBarriers : TaskSet) (availableSlotsForConsumer : Nat) :
    List Nat → Nat → TaskSet → TaskSet
  | [], _, parallelConsumersSameWaitBarriers => parallelConsumersSameWaitBarriers
  | consumer :: rest, parallelConsumerSlotCount, parallelConsumersSameWaitBarriers =>
    if !waitBarriers.sameElements (info.getWaitBarriers consumer) then
      getBarriersConsumerTasks waitBarriers availableSlotsForConsumer rest
        parallelConsumerSlotCount parallelConsumersSameWaitBarriers
    else
      let parallelConsumerSlotCount := parallelConsumerSlotCount + info.getNumOfSlotsUsed consumer
      if availableSlotsForConsumer < parallelConsumerSlotCount then
        parallelConsumersSameWaitBarriers
      else
        getBarriersConsumerTasks waitBarriers availableSlotsForConsumer rest
          parallelConsumerSlotCount (parallelConsumersSameWaitBarriers.insert consumer)

def mergeLegalParallelProducers (parallelProducers parallelConsumers : TaskSet) :
    BarrierInfo Queue :=
  addBatchBarrier .update parallelConsumers info parallelProducers

/-- New barriers from the last batch to the first one; each has the next batch as consumers. -/
def linkBatches (info : BarrierInfo Queue) (legalBatches : List TaskSet)
    (parallelConsumers : TaskSet) : BarrierInfo Queue :=
  (legalBatches.reverse.foldl
    (fun state batch => (addBatchBarrier .update state.2 state.1 batch, batch))
    (info, parallelConsumers)).1

def linearizeLegalParallelProducers (taskInd : Nat) (parallelProducers parallelConsumers : TaskSet)
    (availableSlots : Nat) : BarrierInfo Queue :=
  let legalBatches := info.createProducerBatches (info.getWaitBarriers taskInd) availableSlots
  let legalBatches :=
    if legalBatches.isEmpty then info.createLegalVariantBatches parallelProducers availableSlots
    else legalBatches
  info.linkBatches legalBatches parallelConsumers

/-- One barrier in `unlinkTaskFromParallelBarriers`. -/
def unlinkTasks (tasks : TaskSet) (info : BarrierInfo Queue) (waitBarrierInd : Nat) :
    BarrierInfo Queue :=
  if (info.getBarrierConsumers waitBarrierInd).elements.length = tasks.elements.length then
    info.resetBarrier waitBarrierInd
  else info.removeConsumers waitBarrierInd tasks

def unlinkTaskFromParallelBarriers (tasks waitBarriers : TaskSet) : BarrierInfo Queue :=
  waitBarriers.elements.foldl (unlinkTasks tasks) info

variable (enableUnevenVariantSplit : Bool)

/-- The slots for the consumers; with an uneven split they are those that the producers leave. -/
def slotsForConsumer (availableSlots : Nat)
    (waitBarriers parallelProducers parallelConsumers : TaskSet) : Nat :=
  let totalSlots := 2 * availableSlots
  let parallelProducerSlotCount := info.slotsOf parallelProducers
  if enableUnevenVariantSplit && availableSlots < parallelProducerSlotCount &&
      parallelProducerSlotCount < totalSlots && parallelConsumers.elements.all (fun consumer =>
        !waitBarriers.sameElements (info.getWaitBarriers consumer) ||
          info.getNumOfSlotsUsed consumer ≤ totalSlots - parallelProducerSlotCount) then
    totalSlots - parallelProducerSlotCount
  else availableSlots

/-- The function always returns true: the maps are modified. -/
def mergeParallelWaitBarriers (taskInd availableSlots : Nat) :
    Except SingleWaitFailure (BarrierInfo Queue) :=
  let waitBarriers := info.getWaitBarriers taskInd
  let parallelConsumers := info.parallelTasks .wait waitBarriers
  let parallelProducers := info.parallelTasks .update waitBarriers
  let availableSlotsForConsumer := info.slotsForConsumer enableUnevenVariantSplit availableSlots
    waitBarriers parallelProducers parallelConsumers
  let parallelConsumersToMerge := info.getBarriersConsumerTasks waitBarriers
    availableSlotsForConsumer parallelConsumers.elements 0 ∅
  if parallelConsumersToMerge.isEmpty then .error .emptyParallelConsumers
  else
    let linked :=
      if info.canMergeBarriersForTasks parallelProducers
          (2 * availableSlots - availableSlotsForConsumer) then
        info.mergeLegalParallelProducers parallelProducers parallelConsumersToMerge
      else
        info.linearizeLegalParallelProducers taskInd parallelProducers parallelConsumersToMerge
          availableSlots
    .ok (linked.unlinkTaskFromParallelBarriers parallelConsumersToMerge waitBarriers)

/-! ### The loop -/

def getTasksWithParallelWaitBarriers : TaskSet :=
  .ofList ((List.range info.getNumOfTasks).filter fun taskInd =>
    decide (2 ≤ (info.getWaitBarriers taskInd).elements.length))

/-- One task operation of the walk. The state has the maps and `modifiedIR`. -/
def visitTask (availableSlots : Nat) (state : BarrierInfo Queue × Bool) (taskInd : Nat) :
    Except SingleWaitFailure (BarrierInfo Queue × Bool) :=
  if (state.1.getWaitBarriers taskInd).elements.length < 2 then .ok state
  else do
    let info ← state.1.mergeParallelWaitBarriers enableUnevenVariantSplit taskInd availableSlots
    return (info, true)

/-- The loop, with the tasks that wait for several barriers. -/
def mergeWaitBarriersLoop (enableUnevenVariantSplit mergeWaitBarriersIteratively : Bool)
    (availableSlots : Nat) : Nat → TaskSet → BarrierInfo Queue × Bool →
      Except SingleWaitFailure (BarrierInfo Queue × Bool)
  | 0, _, _ => .error .outOfFuel
  | fuel + 1, tasksWithParallelWaitBarriers, state =>
    if tasksWithParallelWaitBarriers.isEmpty then .ok state
    else do
      let state ← (List.range state.1.getNumOfTasks).foldlM
        (visitTask enableUnevenVariantSplit availableSlots) state
      let tasks := state.1.getTasksWithParallelWaitBarriers
      if tasks.sameElements tasksWithParallelWaitBarriers then .error .identicalBatchOfTasks
      else if !mergeWaitBarriersIteratively then .ok state
      else
        mergeWaitBarriersLoop enableUnevenVariantSplit mergeWaitBarriersIteratively availableSlots
          fuel tasks state

def ensureTasksDrivenBySingleBarrier (availableSlots : Nat) (mergeWaitBarriersIteratively : Bool)
    (fuel : Nat) : Except SingleWaitFailure (BarrierInfo Queue × Bool) :=
  mergeWaitBarriersLoop enableUnevenVariantSplit mergeWaitBarriersIteratively availableSlots fuel
    info.getTasksWithParallelWaitBarriers (info, false)

/-! ### Batches -/

variable {Queue : Type} {info : BarrierInfo Queue} {availableSlots : Nat}

/-! ### Slots -/

theorem fitWithin_iff (tasks : List Nat) {producerSlotCount : Nat}
    (before : producerSlotCount ≤ availableSlots) :
    info.fitWithin availableSlots tasks producerSlotCount = true ↔
      producerSlotCount + (tasks.map info.getNumOfSlotsUsed).sum ≤ availableSlots := by
  induction tasks generalizing producerSlotCount with
  | nil => simp [fitWithin, before]
  | cons head tail ih =>
    unfold fitWithin
    dsimp only
    rw [map_cons, sum_cons, ← add_assoc]
    split
    · next exceeds =>
      refine iff_of_false Bool.false_ne_true fun fits => ?_
      exact absurd ((le_add_right _ _).trans fits) exceeds.not_ge
    · next fits => exact ih (not_lt.mp fits)

theorem canMergeBarriersForTasks_iff (producers : TaskSet) (availableSlots : Nat) :
    info.canMergeBarriersForTasks producers availableSlots = true ↔
      info.slotsOf producers ≤ availableSlots := by
  unfold canMergeBarriersForTasks slotsOf
  rw [fitWithin_iff _ (zero_le _), zero_add]

theorem slotsOf_mono {first second : TaskSet} (subset : ∀ task ∈ first, task ∈ second) :
    info.slotsOf first ≤ info.slotsOf second := by
  obtain ⟨part, perm, sublist⟩ := subperm_of_subset first.nodup subset
  unfold slotsOf
  rw [← (perm.map info.getNumOfSlotsUsed).sum_eq]
  exact (sublist.map info.getNumOfSlotsUsed).sum_le_sum fun _ _ => zero_le _

/-! ### Batches in order -/

/-- All tasks of a set come before all tasks of another one. -/
def Before (first second : TaskSet) : Prop := ∀ task ∈ first, ∀ other ∈ second, task < other

/-- Batches of tasks: each fits and has a task, and each comes before the later ones. -/
structure Batches (info : BarrierInfo Queue) (availableSlots : Nat) (tasks : Nat → Prop)
    (batches : List TaskSet) : Prop where
  mem_iff : ∀ task, tasks task ↔ ∃ batch ∈ batches, task ∈ batch
  fits : ∀ batch ∈ batches, info.slotsOf batch ≤ availableSlots
  occupied : ∀ batch ∈ batches, ∃ task, task ∈ batch
  sequential : batches.Pairwise Before

variable {first second : Nat → Prop} {batches : List TaskSet} {tasks : TaskSet}

theorem Batches.append {others : List TaskSet} (one : Batches info availableSlots first batches)
    (two : Batches info availableSlots second others)
    (before : ∀ task other, first task → second other → task < other) :
    Batches info availableSlots (fun task => first task ∨ second task) (batches ++ others) := by
  refine ⟨fun task => ?_, forall_mem_append.mpr ⟨one.fits, two.fits⟩,
    forall_mem_append.mpr ⟨one.occupied, two.occupied⟩,
    pairwise_append.mpr ⟨one.sequential, two.sequential, ?_⟩⟩
  · rw [one.mem_iff, two.mem_iff]
    simp only [mem_append, or_and_right, exists_or]
  · intro batch member other otherMember task inside late lateInside
    exact before task late ((one.mem_iff task).mpr ⟨batch, member, inside⟩)
      ((two.mem_iff late).mpr ⟨other, otherMember, lateInside⟩)

theorem batches_singleton (fits : info.slotsOf tasks ≤ availableSlots)
    (occupied : ∃ task, task ∈ tasks) : Batches info availableSlots (· ∈ tasks) [tasks] := by
  refine ⟨fun task => by simp, ?_, ?_, pairwise_singleton _ _⟩
  · exact forall_mem_singleton.mpr fits
  · exact forall_mem_singleton.mpr occupied

theorem Batches.congr (one : Batches info availableSlots first batches)
    (same : ∀ task, first task ↔ second task) : Batches info availableSlots second batches :=
  ⟨fun task => (same task).symm.trans (one.mem_iff task), one.fits, one.occupied, one.sequential⟩

theorem LegalBatches.add_batches {tasks : List Nat} {batches : LegalBatches} {task : Nat}
    (of : batches.Of info availableSlots tasks)
    (current : Batches info availableSlots (· ∈ tasks) (batches.complete ++ [batches.last]))
    (behind : ∀ other ∈ tasks, other < task) (fits : info.getNumOfSlotsUsed task ≤ availableSlots) :
    Batches info availableSlots (· ∈ tasks ++ [task])
      ((LegalBatches.add info availableSlots batches task).complete ++
        [(LegalBatches.add info availableSlots batches task).last]) := by
  have fresh : task ∉ tasks := fun member => lt_irrefl task (behind task member)
  have next := of.add fresh fits
  have inLast : task ∈ (LegalBatches.add info availableSlots batches task).last := by
    unfold LegalBatches.add
    dsimp only
    split <;> exact mem_insert.mpr (.inr rfl)
  refine ⟨fun other => ?_, ?_, ?_, ?_⟩
  · rw [next.mem_iff]
    simp only [mem_append, mem_singleton, or_and_right, exists_or, exists_eq_left]
    exact or_comm
  · refine forall_mem_append.mpr ⟨next.complete_le, forall_mem_singleton.mpr ?_⟩
    rw [← next.slots]
    exact next.last_le
  · refine forall_mem_append.mpr ⟨fun batch member => ?_, forall_mem_singleton.mpr ⟨task, inLast⟩⟩
    refine current.occupied batch ?_
    unfold LegalBatches.add at member
    dsimp only at member
    split at member
    · exact mem_append_left _ member
    · exact member
  · unfold LegalBatches.add
    dsimp only
    have sequential := current.sequential
    split
    · rw [pairwise_append] at sequential ⊢
      refine ⟨sequential.1, pairwise_singleton _ _, fun batch member other same => ?_⟩
      rw [mem_singleton.mp same]
      intro early earlyMember late lateMember
      rcases mem_insert.mp lateMember with old | new
      · exact sequential.2.2 batch member _ (mem_singleton.mpr rfl) early earlyMember late old
      · rw [new]
        exact behind early ((current.mem_iff early).mpr
          ⟨batch, mem_append_left _ member, earlyMember⟩)
    · refine pairwise_append.mpr ⟨sequential, pairwise_singleton _ _,
        fun batch member other same => ?_⟩
      rw [mem_singleton.mp same]
      intro early earlyMember late lateMember
      have equal : late = task := (mem_insert.mp lateMember).resolve_left
        not_mem_empty
      rw [equal]
      exact behind early ((current.mem_iff early).mpr ⟨batch, member, earlyMember⟩)

theorem createLegalVariantBatches_batches (occupied : ∃ task, task ∈ tasks)
    (fits : ∀ task ∈ tasks, info.getNumOfSlotsUsed task ≤ availableSlots) :
    Batches info availableSlots (· ∈ tasks)
      (info.createLegalVariantBatches tasks availableSlots) := by
  have run : ∀ (rest seen : List Nat) (batches : LegalBatches), (seen ++ rest).Pairwise (· < ·) →
      (∀ task ∈ rest, info.getNumOfSlotsUsed task ≤ availableSlots) →
      batches.Of info availableSlots seen →
      Batches info availableSlots (· ∈ seen) (batches.complete ++ [batches.last]) →
      Batches info availableSlots (· ∈ seen ++ rest)
        ((rest.foldl (LegalBatches.add info availableSlots) batches).complete ++
          [(rest.foldl (LegalBatches.add info availableSlots) batches).last]) := by
    intro rest
    induction rest with
    | nil =>
      intro seen batches _ _ _ current
      rw [append_nil]
      exact current
    | cons head tail ih =>
      intro seen batches sorted each of current
      have split : seen ++ head :: tail = (seen ++ [head]) ++ tail := by simp
      have behind : ∀ other ∈ seen, other < head := fun other member =>
        (pairwise_append.mp sorted).2.2 other member head mem_cons_self
      have here := each head mem_cons_self
      rw [split] at sorted ⊢
      exact ih _ _ sorted
        (forall_mem_cons.mp each).2
        (of.add (fun member => lt_irrefl head (behind head member)) here)
        (LegalBatches.add_batches of current behind here)
  have perm := perm_insertionSort (· ≤ ·) tasks.elements
  have sorted : (tasks.elements.insertionSort (· ≤ ·)).Pairwise (· < ·) := by
    have distinct := perm.nodup_iff.mpr tasks.nodup
    exact ((pairwise_insertionSort (· ≤ ·) tasks.elements).and distinct).imp
      fun both => lt_of_le_of_ne both.1 both.2
  have mem : ∀ task, task ∈ tasks.elements.insertionSort (· ≤ ·) ↔ task ∈ tasks :=
    fun task => perm.mem_iff
  unfold createLegalVariantBatches
  cases shape : tasks.elements.insertionSort (· ≤ ·) with
  | nil =>
    obtain ⟨task, member⟩ := occupied
    rw [← mem, shape] at member
    exact absurd member not_mem_nil
  | cons first rest =>
    rw [shape] at sorted mem
    have each : ∀ task ∈ first :: rest, info.getNumOfSlotsUsed task ≤ availableSlots :=
      fun task member => fits task ((mem task).mp member)
    rw [forall_mem_cons] at each
    have start : LegalBatches.add info availableSlots ⟨[], ∅, 0⟩ first =
        ⟨[], (∅ : TaskSet).insert first, 0 + info.getNumOfSlotsUsed first⟩ := by
      exact if_pos (by rw [zero_add]; exact each.1)
    have of : LegalBatches.Of info availableSlots [first]
        (LegalBatches.add info availableSlots ⟨[], ∅, 0⟩ first) :=
      @LegalBatches.Of.add _ _ first _ [] ⟨[], ∅, 0⟩ ⟨by simp, rfl, zero_le _, by simp⟩
        not_mem_nil each.1
    have one : Batches info availableSlots (· ∈ [first])
        ((LegalBatches.add info availableSlots ⟨[], ∅, 0⟩ first).complete ++
          [(LegalBatches.add info availableSlots ⟨[], ∅, 0⟩ first).last]) := by
      rw [start, nil_append]
      refine (batches_singleton ?_ ⟨first, by simp⟩).congr fun task => by simp
      exact each.1
    exact (run rest [first] _ sorted each.2 of one).congr mem

/-! ### The producers of several barriers -/

variable {entries : TaskSet}

theorem getMinEntry_le {task : Nat} (member : task ∈ entries) : getMinEntry entries ≤ task :=
  min?_getD_le_of_mem member

theorem behind_of_not_violatesOrder {lastUserInd : Nat}
    (kept : violatesOrder (some lastUserInd) (getMinEntry entries) = false) :
    (∃ task, task ∈ entries) ∧ ∀ task ∈ entries, lastUserInd < task := by
  have less : lastUserInd < getMinEntry entries := not_le.mp (of_decide_eq_false kept)
  refine ⟨?_, fun task member => less.trans_le (getMinEntry_le member)⟩
  by_contra empty
  have none : entries.elements = [] :=
    eq_nil_iff_forall_not_mem.mpr fun task member => empty ⟨task, member⟩
  unfold getMinEntry at less
  rw [none] at less
  exact absurd less (not_lt_zero _)

theorem getMaxEntry_of_mem (occupied : ∃ task, task ∈ entries) :
    ∃ lastUserInd ∈ entries, getMaxEntry entries = some lastUserInd ∧
      ∀ task ∈ entries, task ≤ lastUserInd := by
  obtain ⟨task, member⟩ := occupied
  cases found : entries.elements.max? with
  | none =>
    rw [← mem_elements, max?_eq_none_iff.mp found] at member
    exact absurd member not_mem_nil
  | some lastUserInd =>
    obtain ⟨inside, bound⟩ := max?_eq_some_iff.mp found
    exact ⟨lastUserInd, inside, found, bound⟩

theorem batchesOf_batches {barrierProducers : TaskSet} (occupied : ∃ task, task ∈ barrierProducers)
    (fits : ∀ task ∈ barrierProducers, info.getNumOfSlotsUsed task ≤ availableSlots) :
    Batches info availableSlots (· ∈ barrierProducers)
      (info.batchesOf barrierProducers availableSlots) := by
  unfold batchesOf
  split
  · next merged => exact batches_singleton ((canMergeBarriersForTasks_iff _ _).mp merged) occupied
  · exact createLegalVariantBatches_batches occupied fits

theorem batchesOf_ne_nil (barrierProducers : TaskSet) :
    info.batchesOf barrierProducers availableSlots ≠ [] := by
  unfold batchesOf createLegalVariantBatches
  split
  · exact cons_ne_nil _ _
  · exact append_ne_nil_of_right_ne_nil _ (cons_ne_nil _ _)

theorem dropLast_append_getLastD (occupied : batches ≠ []) :
    batches.dropLast ++ [batches.getLastD ∅] = batches := by
  rw [getLastD_eq_getLast?, getLast?_eq_some_getLast occupied, Option.getD_some]
  exact dropLast_append_getLast occupied

theorem Batches.extendLast {complete : List TaskSet} {last added : TaskSet}
    (one : Batches info availableSlots first (complete ++ [last]))
    (fits : info.slotsOf (last.union added) ≤ availableSlots)
    (before : ∀ task other, first task → other ∈ added → task < other) :
    Batches info availableSlots (fun task => first task ∨ task ∈ added)
      (complete ++ [last.union added]) := by
  have sequential := pairwise_append.mp one.sequential
  have lastMember : last ∈ complete ++ [last] := mem_append_right _ (mem_singleton_self _)
  refine ⟨fun task => ?_, ?_, ?_, ?_⟩
  · rw [one.mem_iff]
    simp only [mem_append, mem_singleton, or_and_right, exists_or, exists_eq_left,
      mem_union, or_assoc]
  · exact forall_mem_append.mpr ⟨fun batch member => one.fits batch
      (mem_append_left _ member), forall_mem_singleton.mpr fits⟩
  · obtain ⟨task, member⟩ := one.occupied last lastMember
    exact forall_mem_append.mpr ⟨(forall_mem_append.mp one.occupied).1,
      forall_mem_singleton.mpr ⟨task, mem_union.mpr (.inl member)⟩⟩
  · refine pairwise_append.mpr ⟨sequential.1, pairwise_singleton _ _, ?_⟩
    intro batch member other same
    rw [mem_singleton.mp same]
    intro early earlyMember late lateMember
    rcases mem_union.mp lateMember with old | new
    · exact sequential.2.2 batch member last (mem_singleton_self _) early earlyMember late old
    · exact before early late ((one.mem_iff early).mpr
        ⟨batch, mem_append_left _ member, earlyMember⟩) new

theorem extendProducerBatches_batches (rest : List Nat)
    (each : ∀ barrier ∈ rest, ∀ task ∈ info.getBarrierProducers barrier,
      info.getNumOfSlotsUsed task ≤ availableSlots) :
    ∀ (seen : Nat → Prop) (complete : List TaskSet) (last : TaskSet) (lastUserInd : Nat),
      Batches info availableSlots seen (complete ++ [last]) →
      (∀ task, seen task → task ≤ lastUserInd) →
      info.extendProducerBatches availableSlots rest complete last (some lastUserInd) = [] ∨
        Batches info availableSlots
          (fun task => seen task ∨ ∃ barrier ∈ rest, task ∈ info.getBarrierProducers barrier)
          (info.extendProducerBatches availableSlots rest complete last (some lastUserInd)) := by
  induction rest with
  | nil =>
    intro seen complete last lastUserInd current _
    exact .inr (current.congr fun task => by simp)
  | cons head tail ih =>
    intro seen complete last lastUserInd current bound
    have later := ih (forall_mem_cons.mp each).2
    unfold extendProducerBatches
    dsimp only
    split
    · exact .inl rfl
    · next kept =>
      obtain ⟨occupied, behind⟩ := behind_of_not_violatesOrder (Bool.not_eq_true _ ▸ kept)
      obtain ⟨nextUserInd, member, found, nextBound⟩ := getMaxEntry_of_mem occupied
      rw [found]
      have before : ∀ task other, seen task → other ∈ info.getBarrierProducers head →
          task < other := fun task other here there => (bound task here).trans_lt
            (behind other there)
      have all : ∀ task, seen task ∨ task ∈ info.getBarrierProducers head → task ≤ nextUserInd := by
        rintro task (old | new)
        · exact (before task nextUserInd old member).le
        · exact nextBound task new
      have regroup : ∀ task, ((seen task ∨ task ∈ info.getBarrierProducers head) ∨
          ∃ barrier ∈ tail, task ∈ info.getBarrierProducers barrier) ↔
            seen task ∨ ∃ barrier ∈ head :: tail, task ∈ info.getBarrierProducers barrier := by
        intro task
        simp only [mem_cons, or_and_right, exists_or, exists_eq_left, or_assoc]
      split
      · next merged =>
        exact (later _ _ _ _ (current.extendLast ((canMergeBarriersForTasks_iff _ _).mp merged)
          before) all).imp_right fun batches => batches.congr regroup
      · have more := current.append (batchesOf_batches occupied (each head mem_cons_self)) before
        rw [← dropLast_append_getLastD (append_ne_nil_of_right_ne_nil _
          (batchesOf_ne_nil (info.getBarrierProducers head)))] at more
        exact (later _ _ _ _ more all).imp_right fun batches => batches.congr regroup

theorem createProducerBatches_batches {waitBarriers : TaskSet}
    (several : 2 ≤ waitBarriers.elements.length)
    (each : ∀ barrier ∈ waitBarriers, ∀ task ∈ info.getBarrierProducers barrier,
      info.getNumOfSlotsUsed task ≤ availableSlots) :
    info.createProducerBatches waitBarriers availableSlots = [] ∨
      Batches info availableSlots
        (fun task => ∃ barrier ∈ waitBarriers, task ∈ info.getBarrierProducers barrier)
        (info.createProducerBatches waitBarriers availableSlots) := by
  have inside : ∀ barrier, barrier ∈ waitBarriers ↔ barrier ∈ waitBarriers.elements :=
    fun _ => Iff.rfl
  simp only [inside] at each ⊢
  unfold createProducerBatches
  generalize waitBarriers.elements = barriers at several each
  cases barriers with
  | nil => exact .inl rfl
  | cons first rest =>
    dsimp only
    by_cases occupied : ∃ task, task ∈ info.getBarrierProducers first
    · obtain ⟨lastUserInd, _, found, bound⟩ := getMaxEntry_of_mem occupied
      have one := batchesOf_batches occupied (each first mem_cons_self)
      rw [← dropLast_append_getLastD (batchesOf_ne_nil (info.getBarrierProducers first))] at one
      rw [found]
      refine (extendProducerBatches_batches rest (forall_mem_cons.mp each).2 _ _ _ lastUserInd one
        bound).imp_right fun batches => batches.congr fun task => ?_
      simp only [mem_cons, or_and_right, exists_or, exists_eq_left]
    · -- Without producers the next barrier is not behind them.
      have none : getMaxEntry (info.getBarrierProducers first) = none :=
        max?_eq_none_iff.mpr (eq_nil_iff_forall_not_mem.mpr
          fun task member => occupied ⟨task, member⟩)
      rw [none]
      cases rest with
      | nil => exact absurd several (by simp)
      | cons second others =>
        left
        unfold extendProducerBatches
        exact if_pos rfl

end NpuPlugin.BarrierInfo
