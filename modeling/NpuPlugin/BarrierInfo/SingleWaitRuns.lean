/-
This file proves what merging the wait barriers of a task does: some tasks wait for one new barrier
instead, others may wait for new barriers in addition, and no order is lost. In one walk over the
tasks, the last task with several wait barriers gets a single one, or fewer have its wait barriers.
-/

import Mathlib.Data.Finset.Card
import NpuPlugin.BarrierInfo.SingleWait

namespace NpuPlugin.BarrierInfo

open IncidenceTable List Nat Relation SmallSet

section

variable {Queue : Type} {info : BarrierInfo Queue} {availableSlots : Nat}

/-! ### The new barriers -/

/-- The tasks of the new barriers. The batches go from the last one to the first one. -/
def chain : List TaskSet → TaskSet → List (Side → TaskSet)
  | [], _ => []
  | batch :: rest, next => batchTasks .update next batch :: chain rest batch

variable {batches : List TaskSet} {next : TaskSet} {entry : Side → TaskSet} (others batch : TaskSet)

theorem batchTasks_update : batchTasks .update others batch .update = batch := if_pos rfl

theorem batchTasks_wait : batchTasks .update others batch .wait = others := if_neg Side.noConfusion

theorem chain_extended {fresh : List (Side → TaskSet)} {middle : BarrierInfo Queue}
    (batches : List TaskSet) (next : TaskSet) (extended : Extended info fresh middle)
    (nextInside : ∀ task ∈ next, task < info.getNumOfTasks)
    (inside : ∀ batch ∈ batches, ∀ task ∈ batch, task < info.getNumOfTasks) :
    Extended info (fresh ++ chain batches next)
      (batches.foldl (fun state batch => (addBatchBarrier .update state.2 state.1 batch, batch))
        (middle, next)).1 := by
  induction batches generalizing fresh middle next with
  | nil =>
    rw [chain, append_nil]
    exact extended
  | cons batch rest ih =>
    have here := inside batch mem_cons_self
    rw [chain, foldl_cons, ← singleton_append, ← append_assoc]
    exact ih batch (extended.addBatchBarrier .update nextInside here) here
      (forall_mem_cons.mp inside).2

theorem linkBatches_extended (valid : info.Valid) {batches : List TaskSet} {consumers : TaskSet}
    (consumersInside : ∀ task ∈ consumers, task < info.getNumOfTasks)
    (inside : ∀ batch ∈ batches, ∀ task ∈ batch, task < info.getNumOfTasks) :
    Extended info (chain batches.reverse consumers) (info.linkBatches batches consumers) :=
  chain_extended batches.reverse consumers (extended_refl valid) consumersInside
    fun batch mem => inside batch (mem_reverse.mp mem)

theorem length_chain (batches : List TaskSet) (next : TaskSet) :
    (chain batches next).length = batches.length := by
  induction batches generalizing next with
  | nil => rfl
  | cons batch rest ih => rw [chain, length_cons, length_cons, ih]

theorem chain_entry {idx : Nat} (found : (chain batches next)[idx]? = some entry) :
    entry .update ∈ batches ∧ ((idx = 0 ∧ entry .wait = next) ∨
      (0 < idx ∧ entry .wait ∈ batches)) := by
  induction batches generalizing next idx with
  | nil => cases found
  | cons batch rest ih =>
    cases idx with
    | zero =>
      cases Option.some.inj found
      exact ⟨batchTasks_update next batch ▸ mem_cons_self, .inl ⟨rfl, batchTasks_wait next batch⟩⟩
    | succ before =>
      obtain ⟨mem, waited⟩ := ih found
      refine ⟨mem_cons_of_mem _ mem, .inr ⟨Nat.succ_pos _, ?_⟩⟩
      rcases waited with ⟨_, same⟩ | ⟨_, later⟩
      · rw [same]
        exact mem_cons_self
      · exact mem_cons_of_mem _ later

theorem chain_before (sequential : batches.Pairwise fun later earlier => Before earlier later)
    (last : ∀ batch ∈ batches, Before batch next) (mem : entry ∈ chain batches next) :
    Before (entry .update) (entry .wait) := by
  induction batches generalizing next with
  | nil => cases mem
  | cons batch rest ih =>
    obtain ⟨here, later⟩ := pairwise_cons.mp sequential
    rcases mem_cons.mp mem with same | inRest
    · rw [same, batchTasks_update, batchTasks_wait]
      exact last batch mem_cons_self
    · exact ih later here inRest

/-- A path along new barriers. -/
def ChainPath (fresh : List (Side → TaskSet)) : Nat → Nat → Prop :=
  Relation.TransGen fun task child => ∃ entry ∈ fresh, task ∈ entry .update ∧ child ∈ entry .wait

theorem chain_path (occupied : 1 < batches.length → ∀ batch ∈ batches, ∃ task, task ∈ batch)
    {batch : TaskSet} (mem : batch ∈ batches) {task child : Nat} (inside : task ∈ batch)
    (behind : child ∈ next) : ChainPath (chain batches next) task child := by
  induction batches generalizing next child with
  | nil => cases mem
  | cons head rest ih =>
    have final : ∀ {other : Nat}, other ∈ head → ChainPath (chain (head :: rest) next) other
      child :=
      fun inHead => .single ⟨_, mem_cons_self, by rwa [batchTasks_update],
        by rwa [batchTasks_wait]⟩
    rcases mem_cons.mp mem with same | inRest
    · exact final (same ▸ inside)
    · -- The path goes on to a task of the batch in front.
      have several : 1 < (head :: rest).length := by
        exact Nat.lt_add_of_pos_left (length_pos_of_mem inRest)
      obtain ⟨middle, inHead⟩ := occupied several head mem_cons_self
      have first : ChainPath (chain rest head) task middle :=
        ih (fun _ other inOthers =>
          occupied several other (mem_cons_of_mem _ inOthers)) inRest inHead
      have longer : ChainPath (chain (head :: rest) next) task middle :=
        Relation.TransGen.mono (fun _ _ ⟨entry, found, both⟩ =>
          ⟨entry, mem_cons_of_mem _ found, both⟩) _ _ first
      exact longer.trans (final inHead)

/-! ### The old barriers -/

/-- Tasks have left barriers that they waited for; a barrier without other consumers has been
reset. -/
structure Unlinked (before : BarrierInfo Queue) (tasks : TaskSet) (barriers : Nat → Prop)
    (after : BarrierInfo Queue) : Prop where
  valid : after.Valid
  allTaskOps_eq : after.allTaskOps = before.allTaskOps
  barriers_eq : after.getNumOfVirtualBarriers = before.getNumOfVirtualBarriers
  waits_iff : ∀ barrier task, after.waits.Linked barrier task ↔
    before.waits.Linked barrier task ∧ ¬ (barriers barrier ∧ task ∈ tasks)
  updates_iff : ∀ barrier task, after.updates.Linked barrier task ↔
    before.updates.Linked barrier task ∧
      ¬ (barriers barrier ∧ ∀ consumer, before.waits.Linked barrier consumer → consumer ∈ tasks)

theorem subset_iff_length_eq {tasks consumers : TaskSet}
    (inside : ∀ task ∈ tasks, task ∈ consumers) :
    consumers.elements.length = tasks.elements.length ↔ ∀ task ∈ consumers, task ∈ tasks := by
  constructor
  · intro length
    have perm := (subperm_of_subset tasks.nodup inside).perm_of_length_le length.le
    exact fun task mem => perm.mem_iff.mpr mem
  · intro contained
    exact ((perm_ext_iff_of_nodup consumers.nodup tasks.nodup).mpr fun task =>
      ⟨contained task, inside task⟩).length_eq

theorem unlinkTasks_unlinked (valid : info.Valid) {tasks : TaskSet} {waitBarrierInd : Nat}
    (waits : ∀ task ∈ tasks, info.waits.Linked waitBarrierInd task) :
    Unlinked info tasks (· = waitBarrierInd) (unlinkTasks tasks info waitBarrierInd) := by
  have only := @subset_iff_length_eq tasks (info.getBarrierConsumers waitBarrierInd) waits
  unfold unlinkTasks
  split
  · next same =>
    have all := only.mp same
    refine ⟨valid.resetBarrier, rfl, getNumOfVirtualBarriers_resetBarrier _, ?_, ?_⟩
    · intro barrier task
      refine (linked_clearRow).trans (and_congr_right fun linked => not_congr ?_)
      refine ⟨fun here => ⟨here, all task ?_⟩, And.left⟩
      rw [← here]
      exact linked
    · intro barrier task
      refine (linked_clearRow).trans (and_congr_right fun _ => not_congr ?_)
      refine ⟨fun here => ⟨here, fun consumer linked => all consumer ?_⟩, And.left⟩
      rw [← here]
      exact linked
  · next different =>
    refine ⟨valid.removeConsumers tasks, rfl, rfl, fun barrier task => ?_, fun barrier task => ?_⟩
    · exact linked_unlinkAll _
    · refine (and_iff_left ?_).symm
      rintro ⟨here, all⟩
      refine different (only.mpr fun consumer mem => all consumer ?_)
      rw [here]
      exact mem

theorem unlinkTaskFromParallelBarriers_unlinked (valid : info.Valid) {tasks waitBarriers : TaskSet}
    (waits : ∀ barrier ∈ waitBarriers, ∀ task ∈ tasks, info.waits.Linked barrier task) :
    Unlinked info tasks (· ∈ waitBarriers)
      (info.unlinkTaskFromParallelBarriers tasks waitBarriers) := by
  have run : ∀ (barriers : List Nat) (middle : BarrierInfo Queue), barriers.Nodup →
      middle.Valid →
      (∀ barrier ∈ barriers, ∀ task ∈ tasks, middle.waits.Linked barrier task) →
      Unlinked middle tasks (· ∈ barriers) (barriers.foldl (unlinkTasks tasks) middle) := by
    intro barriers
    induction barriers with
    | nil =>
      intro middle _ middleValid _
      exact ⟨middleValid, rfl, rfl, fun _ _ => by simp, fun _ _ => by simp⟩
    | cons head rest ih =>
      intro middle distinct middleValid each
      obtain ⟨fresh, distinctRest⟩ := nodup_cons.mp distinct
      have one := unlinkTasks_unlinked middleValid (each head mem_cons_self)
      -- The consumers of the other barriers are as before.
      have others : ∀ barrier ∈ rest, ∀ consumer,
          (unlinkTasks tasks middle head).waits.Linked barrier consumer ↔
            middle.waits.Linked barrier consumer := by
        intro barrier mem consumer
        rw [one.waits_iff, and_iff_left]
        rintro ⟨same, _⟩
        exact fresh (same ▸ mem)
      have later := ih (unlinkTasks tasks middle head) distinctRest one.valid
        fun barrier mem task inTasks => (others barrier mem task).mpr
          (each barrier (mem_cons_of_mem _ mem) task inTasks)
      rw [foldl_cons]
      refine ⟨later.valid, later.allTaskOps_eq.trans one.allTaskOps_eq,
        later.barriers_eq.trans one.barriers_eq, fun barrier task => ?_, fun barrier task => ?_⟩
      · rw [later.waits_iff, one.waits_iff, and_assoc, ← not_or, ← or_and_right, mem_cons]
      · rw [later.updates_iff, one.updates_iff, and_assoc, ← not_or, mem_cons, or_and_right]
        refine and_congr_right fun _ => not_congr
          (or_congr_right (and_congr_right fun mem => ?_))
        exact forall_congr' fun consumer => imp_congr_left (others barrier mem consumer)
  exact run waitBarriers.elements info waitBarriers.nodup valid waits

end

variable {Queue : Type} {info : BarrierInfo Queue} {enableUnevenVariantSplit : Bool}
  {availableSlots taskInd : Nat}

/-! ### The merged tasks -/

variable {waitBarriers : TaskSet}

theorem mem_parallelTasks {side : Side} {task : Nat} :
    task ∈ info.parallelTasks side waitBarriers ↔
      ∃ barrier ∈ waitBarriers, (info.table side).Linked barrier task := by
  have run : ∀ (barriers : List Nat) (tasks : TaskSet),
      task ∈ barriers.foldl (fun tasks waitBarrierInd =>
          tasks.union ((info.table side).row waitBarrierInd)) tasks ↔
        task ∈ tasks ∨ ∃ barrier ∈ barriers, (info.table side).Linked barrier task := by
    intro barriers
    induction barriers with
    | nil => simp
    | cons head rest ih =>
      intro tasks
      rw [foldl_cons, ih, mem_union, IncidenceTable.mem_row]
      simp only [mem_cons, or_and_right, exists_or, exists_eq_left, or_assoc]
  refine (run waitBarriers.elements ∅).trans (or_iff_right not_mem_empty)

theorem getBarriersConsumerTasks_spec {waitBarriers : TaskSet} {limit : Nat} (rest : List Nat)
    {count : Nat} {collected : TaskSet} (distinct : rest.Nodup)
    (fresh : ∀ task ∈ rest, task ∉ collected) (slots : info.slotsOf collected = count)
    (below : count ≤ limit) :
    (∀ task ∈ info.getBarriersConsumerTasks waitBarriers limit rest count collected,
        task ∈ collected ∨ waitBarriers.sameElements (info.getWaitBarriers task) = true) ∧
      info.slotsOf (info.getBarriersConsumerTasks waitBarriers limit rest count collected) ≤ limit ∧
      ∀ task ∈ collected,
        task ∈ info.getBarriersConsumerTasks waitBarriers limit rest count collected := by
  induction rest generalizing count collected with
  | nil => exact ⟨fun _ => .inl, slots.trans_le below, fun _ => id⟩
  | cons head tail ih =>
    obtain ⟨headFresh, tailDistinct⟩ := nodup_cons.mp distinct
    have tailFresh : ∀ task ∈ tail, task ∉ collected := (forall_mem_cons.mp fresh).2
    unfold getBarriersConsumerTasks
    split
    · exact ih tailDistinct tailFresh slots below
    · next same =>
      dsimp only
      split
      · exact ⟨fun _ => .inl, slots.trans_le below, fun _ => id⟩
      · next fits =>
        obtain ⟨members, le, kept⟩ := @ih
          (count + info.getNumOfSlotsUsed head) (collected.insert head) tailDistinct
          (fun task mem inserted => by
            rcases mem_insert.mp inserted with old | new
            · exact tailFresh task mem old
            · exact headFresh (new ▸ mem))
          (by rw [slotsOf_insert (fresh head mem_cons_self), slots]) (not_lt.mp fits)
        refine ⟨fun task mem => ?_, le, fun task mem => kept task (mem_insert.mpr (.inl mem))⟩
        rcases members task mem with inserted | waits
        · rcases mem_insert.mp inserted with old | new
          · exact .inl old
          · rw [Bool.not_eq_true', Bool.not_eq_false] at same
            exact .inr (new ▸ same)
        · exact .inr waits

theorem getBarriersConsumerTasks_occupied {limit : Nat} (rest : List Nat) (distinct : rest.Nodup)
    (present : ∃ task ∈ rest, waitBarriers.sameElements (info.getWaitBarriers task) = true)
    (fits : ∀ task ∈ rest, waitBarriers.sameElements (info.getWaitBarriers task) = true →
      info.getNumOfSlotsUsed task ≤ limit) :
    ∃ task, task ∈ info.getBarriersConsumerTasks waitBarriers limit rest 0 ∅ := by
  induction rest with
  | nil =>
    obtain ⟨task, mem, _⟩ := present
    cases mem
  | cons head tail ih =>
    obtain ⟨headFresh, tailDistinct⟩ := nodup_cons.mp distinct
    unfold getBarriersConsumerTasks
    split
    · next different =>
      refine ih tailDistinct ?_
        (forall_mem_cons.mp fits).2
      obtain ⟨task, mem, same⟩ := present
      rcases mem_cons.mp mem with head | inTail
      · rw [← head, same] at different
        cases different
      · exact ⟨task, inTail, same⟩
    · next same =>
      rw [Bool.not_eq_true', Bool.not_eq_false] at same
      have here := fits head mem_cons_self same
      rw [zero_add, if_neg here.not_gt]
      refine ⟨head, (getBarriersConsumerTasks_spec tail tailDistinct (fun task mem inserted => ?_)
        ?_ here).2.2 head (mem_insert.mpr (.inr rfl))⟩
      · rcases mem_insert.mp inserted with old | new
        · exact not_mem_empty old
        · exact headFresh (new ▸ mem)
      · rw [slotsOf_insert not_mem_empty, slotsOf_empty, zero_add]

theorem slotsForConsumer_cases (waitBarriers producers consumers : TaskSet) :
    info.slotsForConsumer enableUnevenVariantSplit availableSlots waitBarriers producers consumers =
        availableSlots ∨
      (enableUnevenVariantSplit = true ∧ availableSlots < info.slotsOf producers ∧
        info.slotsOf producers < 2 * availableSlots ∧
        (∀ consumer ∈ consumers, waitBarriers.sameElements (info.getWaitBarriers consumer) = true →
            info.getNumOfSlotsUsed consumer ≤ 2 * availableSlots - info.slotsOf producers) ∧
        info.slotsForConsumer enableUnevenVariantSplit availableSlots waitBarriers producers
          consumers = 2 * availableSlots - info.slotsOf producers) := by
  unfold slotsForConsumer
  dsimp only
  split
  · next uneven =>
    simp only [Bool.and_eq_true, decide_eq_true_eq, all_eq_true, Bool.or_eq_true,
      Bool.not_eq_true'] at uneven
    obtain ⟨⟨⟨enabled, more⟩, less⟩, every⟩ := uneven
    refine .inr ⟨enabled, more, less, fun consumer mem same => ?_, rfl⟩
    rcases every consumer mem with different | fits
    · rw [same] at different
      cases different
    · exact fits
  · exact .inl rfl

/-! ### The parts of a merge -/

/-- The limits of a new barrier. With an uneven split its producers may take more than their half
of the slots when its consumers leave them. -/
def WithinLimits (enableUnevenVariantSplit : Bool) (availableSlots producerSlotCount
    consumerSlotCount : Nat) : Prop :=
  consumerSlotCount ≤ availableSlots ∧ (producerSlotCount ≤ availableSlots ∨
    enableUnevenVariantSplit = true ∧ producerSlotCount + consumerSlotCount ≤ 2 * availableSlots)

theorem WithinLimits.mono {producers consumers fewerProducers fewerConsumers : Nat}
    (within : WithinLimits enableUnevenVariantSplit availableSlots producers consumers)
    (producersLe : fewerProducers ≤ producers) (consumersLe : fewerConsumers ≤ consumers) :
    WithinLimits enableUnevenVariantSplit availableSlots fewerProducers fewerConsumers :=
  ⟨consumersLe.trans within.1, within.2.imp producersLe.trans
    (And.imp_right (Nat.add_le_add producersLe consumersLe).trans)⟩

/-- The merged tasks, which wait for the same barriers as the visited one, and the batches of the
producers of these barriers. -/
structure Merges (info : BarrierInfo Queue) (enableUnevenVariantSplit : Bool)
    (availableSlots taskInd : Nat) (merged : TaskSet) (batches : List TaskSet) : Prop where
  waiting : ∃ barrier, info.waits.Linked barrier taskInd
  someone : ∃ task, task ∈ merged
  same : ∀ task ∈ merged, ∀ barrier,
    info.waits.Linked barrier task ↔ info.waits.Linked barrier taskInd
  mem_iff : ∀ task, (∃ barrier, info.waits.Linked barrier taskInd ∧
    info.updates.Linked barrier task) ↔ ∃ batch ∈ batches, task ∈ batch
  ne_nil : batches ≠ []
  occupied : 1 < batches.length → ∀ batch ∈ batches, ∃ task, task ∈ batch
  sequential : batches.Pairwise Before
  merged_le : info.slotsOf merged ≤ availableSlots
  batches_le : (∀ batch ∈ batches, info.slotsOf batch ≤ availableSlots) ∨
    ∃ producers, batches = [producers] ∧ enableUnevenVariantSplit = true ∧
      info.slotsOf producers + info.slotsOf merged ≤ 2 * availableSlots

theorem linearized_batches (valid : info.Valid)
    (fits : ∀ task, info.getNumOfSlotsUsed task ≤ availableSlots)
    (several : 2 ≤ (info.getWaitBarriers taskInd).elements.length) (exceeds : availableSlots <
      info.slotsOf (info.parallelTasks .update (info.getWaitBarriers taskInd)))
    (consumers : TaskSet) :
    ∃ batches, batches ≠ [] ∧
      Batches info availableSlots
        (fun task => ∃ barrier, info.waits.Linked barrier taskInd ∧
          info.updates.Linked barrier task) batches ∧
      info.linearizeLegalParallelProducers taskInd
        (info.parallelTasks .update (info.getWaitBarriers taskInd)) consumers availableSlots =
          info.linkBatches batches consumers := by
  have waits : ∀ barrier, barrier ∈ info.getWaitBarriers taskInd ↔
      info.waits.Linked barrier taskInd := fun barrier => valid.mirrored .wait barrier taskInd
  refine ⟨_, ?_, ?_, rfl⟩
  · split
    · exact append_ne_nil_of_right_ne_nil _ (cons_ne_nil _ _)
    · next ordered => exact fun empty => ordered (List.isEmpty_iff.mpr empty)
  split
  · -- The producers exceed the slots, so there are some.
    have someone : ∃ task, task ∈ info.parallelTasks .update (info.getWaitBarriers taskInd) := by
      by_contra none
      have empty : info.slotsOf (info.parallelTasks .update (info.getWaitBarriers taskInd)) =
          info.slotsOf ∅ :=
        slotsOf_congr fun task => iff_of_false (fun mem => none ⟨task, mem⟩)
          not_mem_empty
      rw [empty, slotsOf_empty] at exceeds
      exact not_lt_zero _ exceeds
    refine (createLegalVariantBatches_batches someone fun task _ => fits task).congr fun task => ?_
    rw [mem_parallelTasks]
    exact exists_congr fun barrier => and_congr_left fun _ => waits barrier
  · next ordered =>
    rcases createProducerBatches_batches several (fun _ _ task _ => fits task) with none | batches
    · rw [none] at ordered
      exact absurd rfl ordered
    · exact batches.congr fun task => exists_congr fun barrier => and_congr_left fun _ =>
        waits barrier

theorem mergeParallelWaitBarriers_merges (valid : info.Valid)
    (fits : ∀ task, info.getNumOfSlotsUsed task ≤ availableSlots)
    (several : 2 ≤ (info.getWaitBarriers taskInd).elements.length) :
    ∃ merged batches, Merges info enableUnevenVariantSplit availableSlots taskInd merged batches ∧
      info.mergeParallelWaitBarriers enableUnevenVariantSplit taskInd availableSlots =
        .ok ((info.linkBatches batches merged).unlinkTaskFromParallelBarriers merged
          (info.getWaitBarriers taskInd)) := by
  let waitBarriers := info.getWaitBarriers taskInd
  let producers := info.parallelTasks .update waitBarriers
  let consumers := info.parallelTasks .wait waitBarriers
  let limit := info.slotsForConsumer enableUnevenVariantSplit availableSlots waitBarriers producers
    consumers
  let merged := info.getBarriersConsumerTasks waitBarriers limit consumers.elements 0 ∅
  have waits : ∀ barrier task, barrier ∈ info.getWaitBarriers task ↔
      info.waits.Linked barrier task := fun barrier task => valid.mirrored .wait barrier task
  have division := @slotsForConsumer_cases _ info enableUnevenVariantSplit availableSlots
    waitBarriers producers consumers
  obtain ⟨members, mergedLe, _⟩ := @getBarriersConsumerTasks_spec _ info waitBarriers limit
    consumers.elements 0 ∅ consumers.nodup (fun _ _ => not_mem_empty) slotsOf_empty
    (zero_le _)
  obtain ⟨barrier, barrierMember⟩ := exists_mem_of_length_pos (zero_lt_two.trans_le several)
  have waiting := (waits barrier taskInd).mp barrierMember
  -- The visited task is among the consumers.
  have visited : taskInd ∈ consumers := mem_parallelTasks.mpr ⟨barrier, barrierMember, waiting⟩
  have someone : ∃ task, task ∈ merged := by
    refine getBarriersConsumerTasks_occupied consumers.elements consumers.nodup
      ⟨taskInd, visited, sameElements_iff.mpr fun _ => Iff.rfl⟩ fun task mem same => ?_
    rcases division with even | ⟨_, _, _, every, uneven⟩
    · exact (fits task).trans_eq even.symm
    · exact (every task mem same).trans_eq uneven.symm
  have same : ∀ task ∈ merged, ∀ barrier,
      info.waits.Linked barrier task ↔ info.waits.Linked barrier taskInd := by
    intro task mem barrier
    have equal := (members task mem).resolve_left not_mem_empty
    rw [← waits, ← waits, ← sameElements_iff.mp equal barrier]
  have mem_producers : ∀ task, (∃ barrier, info.waits.Linked barrier taskInd ∧
      info.updates.Linked barrier task) ↔ task ∈ producers := by
    intro task
    rw [mem_parallelTasks]
    exact exists_congr fun barrier => and_congr_left fun _ => (waits barrier taskInd).symm
  have limitLe : limit ≤ availableSlots := by
    rcases division with even | ⟨_, more, _, _, uneven⟩
    · exact even.le
    · show info.slotsForConsumer _ _ _ _ _ ≤ _
      omega
  unfold mergeParallelWaitBarriers
  rw [if_neg (Bool.not_eq_true _ ▸ isEmpty_eq_false_iff.mpr someone)]
  split
  · next legal =>
    have producersLe := (canMergeBarriersForTasks_iff _ _).mp legal
    refine ⟨merged, [producers], ⟨⟨barrier, waiting⟩, someone, same, fun task => ?_,
      cons_ne_nil _ _, ?_, ?_, mergedLe.trans limitLe, ?_⟩, rfl⟩
    · rw [mem_producers]
      simp
    · exact fun more => absurd more (lt_irrefl 1)
    · exact pairwise_singleton _ _
    · rcases division with even | ⟨enabled, _, less, _, uneven⟩
      · rw [even] at producersLe
        have half : 2 * availableSlots - availableSlots = availableSlots := by omega
        exact .inl (forall_mem_singleton.mpr (producersLe.trans_eq half))
      · refine .inr ⟨producers, rfl, enabled, ?_⟩
        have le : info.slotsOf merged ≤ 2 * availableSlots - info.slotsOf producers :=
          mergedLe.trans_eq uneven
        omega
  · next exceeds =>
    rw [canMergeBarriersForTasks_iff] at exceeds
    have more : availableSlots < info.slotsOf producers := by
      have bound : ¬ info.slotsOf producers ≤ 2 * availableSlots - limit := exceeds
      omega
    obtain ⟨batches, ne_nil, of, linked⟩ := linearized_batches valid fits several more merged
    rw [linked]
    exact ⟨merged, batches, ⟨⟨barrier, waiting⟩, someone, same, of.mem_iff, ne_nil, fun _ =>
      of.occupied, of.sequential,
      mergedLe.trans limitLe, .inl of.fits⟩, rfl⟩

/-! ### The merge -/

/-- What the merge of the wait barriers of a task does to the maps. -/
structure MergeStep (before : BarrierInfo Queue) (enableUnevenVariantSplit : Bool)
    (availableSlots taskInd : Nat) (merged : TaskSet) (after : BarrierInfo Queue) : Prop where
  valid : after.Valid
  allTaskOps_eq : after.allTaskOps = before.allTaskOps
  more : before.getNumOfVirtualBarriers ≤ after.getNumOfVirtualBarriers
  someone : ∃ task, task ∈ merged
  same : ∀ task ∈ merged, ∀ barrier,
    before.waits.Linked barrier task ↔ before.waits.Linked barrier taskInd
  single : ∀ task ∈ merged, ∀ barrier,
    after.waits.Linked barrier task ↔ barrier = before.getNumOfVirtualBarriers
  kept : ∀ task, task ∉ merged → ∀ barrier,
    before.waits.Linked barrier task → after.waits.Linked barrier task
  added : ∀ task, task ∉ merged → ∀ barrier, after.waits.Linked barrier task →
    before.waits.Linked barrier task ∨
      before.getNumOfVirtualBarriers ≤ barrier ∧ task < taskInd
  fewer : ∀ side, ∀ barrier < before.getNumOfVirtualBarriers, ∀ task,
    (after.table side).Linked barrier task → (before.table side).Linked barrier task
  ordered : after.IndexOrdered
  controls : ∀ {task child : Nat}, before.Controls task child → after.Precedes task child
  within : ∀ barrier, before.getNumOfVirtualBarriers ≤ barrier →
    WithinLimits enableUnevenVariantSplit availableSlots (after.getProducerSlotCount barrier)
      (after.getConsumerSlotCount barrier)

/-- The links after the merge: those of the new barriers, and the old ones of the tasks that did
not leave. -/
structure MergeResult (info : BarrierInfo Queue) (taskInd : Nat) (merged : TaskSet)
    (batches : List TaskSet) (after : BarrierInfo Queue) : Prop where
  valid : after.Valid
  allTaskOps_eq : after.allTaskOps = info.allTaskOps
  barriers_eq : after.getNumOfVirtualBarriers =
    info.getNumOfVirtualBarriers + (chain batches.reverse merged).length
  old_waits : ∀ barrier < info.getNumOfVirtualBarriers, ∀ task, after.waits.Linked barrier task ↔
    info.waits.Linked barrier task ∧ ¬ (info.waits.Linked barrier taskInd ∧ task ∈ merged)
  old_updates : ∀ barrier < info.getNumOfVirtualBarriers, ∀ task,
    after.updates.Linked barrier task ↔ info.updates.Linked barrier task ∧
      ¬ (info.waits.Linked barrier taskInd ∧
        ∀ consumer, info.waits.Linked barrier consumer → consumer ∈ merged)
  fresh : ∀ idx entry, (chain batches.reverse merged)[idx]? = some entry → ∀ side task,
    (after.table side).Linked (info.getNumOfVirtualBarriers + idx) task ↔ task ∈ entry side

section

variable {fresh : List (Side → TaskSet)} {after : BarrierInfo Queue}
  (extended : Extended info fresh after)
include extended

theorem Extended.old_iff {side : Side} {barrier task : Nat}
    (old : barrier < info.getNumOfVirtualBarriers) :
    (after.table side).Linked barrier task ↔ (info.table side).Linked barrier task := by
  rw [extended.linked_iff, or_iff_left]
  rintro ⟨idx, _, _, place, _⟩
  omega

theorem Extended.fresh_iff (valid : info.Valid) {side : Side} {idx task : Nat}
    {entry : Side → TaskSet} (found : fresh[idx]? = some entry) :
    (after.table side).Linked (info.getNumOfVirtualBarriers + idx) task ↔ task ∈ entry side := by
  rw [extended.linked_iff]
  constructor
  · rintro (old | ⟨position, tasks, located, place, mem⟩)
    · exact absurd (valid.barrier_lt side old) (by omega)
    · rw [← add_left_cancel place, found] at located
      exact Option.some.inj located ▸ mem
  · exact fun mem => .inr ⟨idx, entry, found, rfl, mem⟩

end

section Merge

variable {merged : TaskSet} {batches : List TaskSet} {after : BarrierInfo Queue}
  {task barrier : Nat}

section

variable (merges : Merges info enableUnevenVariantSplit availableSlots taskInd merged batches)
include merges

theorem Merges.before (ordered : info.IndexOrdered) {batch : TaskSet} (mem : batch ∈ batches)
    (inside : task ∈ batch) : task < taskInd ∧ ∀ other ∈ merged, task < other := by
  obtain ⟨barrier, waited, updated⟩ := (merges.mem_iff task).mpr ⟨batch, mem, inside⟩
  exact ⟨ordered barrier task taskInd updated waited, fun other inMerged =>
    ordered barrier task other updated ((merges.same other inMerged barrier).mpr waited)⟩

theorem Merges.result (valid : info.Valid) :
    MergeResult info taskInd merged batches ((info.linkBatches batches merged)
      |>.unlinkTaskFromParallelBarriers merged (info.getWaitBarriers taskInd)) := by
  have waits : ∀ barrier, barrier ∈ info.getWaitBarriers taskInd ↔
      info.waits.Linked barrier taskInd := fun barrier => valid.mirrored .wait barrier taskInd
  have old : ∀ barrier, info.waits.Linked barrier taskInd →
      barrier < info.getNumOfVirtualBarriers := fun barrier linked => valid.barrier_lt .wait linked
  have extended := @linkBatches_extended _ info valid batches merged
    (fun task mem => by
      obtain ⟨barrier, linked⟩ := merges.waiting
      exact valid.task_lt .wait ((merges.same task mem barrier).mpr linked))
    (fun batch mem task inside => by
      obtain ⟨barrier, _, updated⟩ := (merges.mem_iff task).mpr ⟨batch, mem, inside⟩
      exact valid.task_lt .update updated)
  have oldWaits : ∀ barrier, barrier < info.getNumOfVirtualBarriers → ∀ task,
      (info.linkBatches batches merged).waits.Linked barrier task ↔
        info.waits.Linked barrier task :=
    fun barrier inside task => @Extended.old_iff _ info _ _ extended .wait barrier task inside
  have unlinked := @unlinkTaskFromParallelBarriers_unlinked _ (info.linkBatches batches merged)
    extended.valid merged (info.getWaitBarriers taskInd) fun barrier mem task inMerged => by
      have linked := (waits barrier).mp mem
      exact (oldWaits barrier (old barrier linked) task).mpr
        ((merges.same task inMerged barrier).mpr linked)
  refine ⟨unlinked.valid, unlinked.allTaskOps_eq.trans extended.allTaskOps_eq,
    unlinked.barriers_eq.trans extended.barriers, ?_, ?_, ?_⟩
  · intro barrier inside task
    rw [unlinked.waits_iff, oldWaits barrier inside, waits]
  · intro barrier inside task
    rw [unlinked.updates_iff, waits]
    refine and_congr (@Extended.old_iff _ info _ _ extended .update barrier task inside)
      (not_congr (and_congr_right fun _ => forall_congr' fun consumer => ?_))
    rw [oldWaits barrier inside]
  · intro idx entry found side task
    rw [← extended.fresh_iff valid found]
    have new : info.getNumOfVirtualBarriers + idx ∉ info.getWaitBarriers taskInd :=
      fun mem => absurd (old _ ((waits _).mp mem)) (by omega)
    cases side
    · exact (unlinked.updates_iff _ task).trans (and_iff_left fun both => new both.1)
    · exact (unlinked.waits_iff _ task).trans (and_iff_left fun both => new both.1)

end

theorem MergeResult.entry (result : MergeResult info taskInd merged batches after) {side : Side}
    {barrier task : Nat} (linked : (after.table side).Linked barrier task)
    (new : info.getNumOfVirtualBarriers ≤ barrier) :
    ∃ idx entry, (chain batches.reverse merged)[idx]? = some entry ∧
      barrier = info.getNumOfVirtualBarriers + idx ∧ task ∈ entry side := by
  obtain ⟨idx, place⟩ := Nat.exists_eq_add_of_le new
  have inside := result.valid.barrier_lt side linked
  rw [result.barriers_eq, place] at inside
  have found := getElem?_eq_getElem (Nat.lt_of_add_lt_add_left inside)
  exact ⟨idx, _, found, place, (result.fresh idx _ found side task).mp (place ▸ linked)⟩

theorem MergeResult.new_wait (result : MergeResult info taskInd merged batches after)
    (linked : after.waits.Linked barrier task) (new : info.getNumOfVirtualBarriers ≤ barrier) :
    (barrier = info.getNumOfVirtualBarriers ∧ task ∈ merged) ∨
      ∃ batch ∈ batches, task ∈ batch := by
  obtain ⟨idx, entry, found, place, mem⟩ := @MergeResult.entry _ _ _ _ _ _ result .wait _ _
    linked new
  rcases (chain_entry found).2 with ⟨zero, same⟩ | ⟨_, inBatches⟩
  · rw [zero] at place
    exact .inl ⟨place, same ▸ mem⟩
  · exact .inr ⟨entry .wait, mem_reverse.mp inBatches, mem⟩

section

variable (merges : Merges info enableUnevenVariantSplit availableSlots taskInd merged batches)
include merges

theorem Merges.single (ordered : info.IndexOrdered)
    (result : MergeResult info taskInd merged batches after) (inMerged : task ∈ merged)
    (barrier : Nat) : after.waits.Linked barrier task ↔ barrier = info.getNumOfVirtualBarriers := by
  constructor
  · intro linked
    rcases lt_or_ge barrier info.getNumOfVirtualBarriers with old | new
    · obtain ⟨before, stays⟩ := (result.old_waits barrier old task).mp linked
      exact absurd ⟨(merges.same task inMerged barrier).mp before, inMerged⟩ stays
    · rcases result.new_wait linked new with ⟨first, _⟩ | ⟨batch, mem, inside⟩
      · exact first
      · exact absurd ((merges.before ordered mem inside).2 task inMerged) (lt_irrefl task)
  · intro first
    obtain ⟨batch, rest, shape⟩ := exists_cons_of_ne_nil
      (reverse_ne_nil_iff.mpr merges.ne_nil)
    have found : (chain batches.reverse merged)[0]? = some (batchTasks .update merged batch) := by
      rw [shape]
      rfl
    rw [first]
    refine (result.fresh 0 _ found .wait task).mpr ?_
    exact inMerged

theorem Merges.ordered (ordered : info.IndexOrdered)
    (result : MergeResult info taskInd merged batches after) : after.IndexOrdered := by
  intro barrier producer consumer updated waited
  rcases lt_or_ge barrier info.getNumOfVirtualBarriers with old | new
  · exact ordered barrier producer consumer ((result.old_updates barrier old producer).mp updated).1
      ((result.old_waits barrier old consumer).mp waited).1
  · obtain ⟨idx, entry, found, place, producing⟩ := @MergeResult.entry _ _ _ _ _ _ result .update
      _ _ updated new
    have consuming := (result.fresh idx entry found .wait consumer).mp (place ▸ waited)
    have sequential : batches.reverse.Pairwise fun later earlier => Before earlier later :=
      pairwise_reverse.mpr merges.sequential
    exact chain_before sequential (fun batch mem task inside =>
      (merges.before ordered (mem_reverse.mp mem) inside).2)
      (mem_of_getElem? found) producer producing consumer consuming

theorem Merges.controls (valid : info.Valid)
    (result : MergeResult info taskInd merged batches after) {task child : Nat}
    (controls : info.Controls task child) : after.Precedes task child := by
  obtain ⟨barrier, updated, waited⟩ := controls
  have old := valid.barrier_lt .wait waited
  by_cases left : info.waits.Linked barrier taskInd ∧ child ∈ merged
  · -- The task is a producer, from which the new barriers lead to the merged tasks.
    obtain ⟨batch, mem, inside⟩ := (merges.mem_iff task).mp ⟨barrier, left.1, updated⟩
    have several : 1 < batches.reverse.length → ∀ batch ∈ batches.reverse, ∃ task, task ∈
      batch := by
      intro more other inBatches
      rw [length_reverse] at more
      exact merges.occupied more other (mem_reverse.mp inBatches)
    have path := chain_path several (mem_reverse.mpr mem) inside left.2
    refine TransGen.mono (fun first second step => ?_) _ _ path
    obtain ⟨entry, inChain, producing, consuming⟩ := step
    obtain ⟨idx, found⟩ := mem_iff_getElem?.mp inChain
    exact ⟨info.getNumOfVirtualBarriers + idx,
      (result.fresh idx entry found .update first).mpr producing,
      (result.fresh idx entry found .wait second).mpr consuming⟩
  · refine .single ⟨barrier, (result.old_updates barrier old task).mpr ⟨updated, ?_⟩,
      (result.old_waits barrier old child).mpr ⟨waited, left⟩⟩
    exact fun reset => left ⟨reset.1, reset.2 child waited⟩

end

section

variable (merges : Merges info enableUnevenVariantSplit availableSlots taskInd merged batches)
include merges

theorem Merges.within (result : MergeResult info taskInd merged batches after)
    (new : info.getNumOfVirtualBarriers ≤ barrier) :
    WithinLimits enableUnevenVariantSplit availableSlots (after.getProducerSlotCount barrier)
      (after.getConsumerSlotCount barrier) := by
  rcases lt_or_ge barrier after.getNumOfVirtualBarriers with inside | outside
  · obtain ⟨idx, place⟩ := Nat.exists_eq_add_of_le new
    rw [result.barriers_eq, place] at inside
    have small := lt_of_add_lt_add_left inside
    have found := getElem?_eq_getElem small
    generalize (chain batches.reverse merged)[idx] = entry at found
    have slots : ∀ side, after.getSlotCount side barrier = info.slotsOf (entry side) := by
      intro side
      rw [getSlotCount_eq, slotsOf_eq_of_allTaskOps result.allTaskOps_eq, place]
      exact slotsOf_congr (result.fresh idx entry found side)
    unfold getProducerSlotCount getConsumerSlotCount
    rw [slots, slots]
    obtain ⟨updated, waited⟩ := chain_entry found
    rw [mem_reverse] at updated
    rcases merges.batches_le with each | ⟨producers, only, enabled, sum⟩
    · refine ⟨?_, .inl (each _ updated)⟩
      rcases waited with ⟨_, same⟩ | ⟨_, mem⟩
      · exact same ▸ merges.merged_le
      · exact each _ (mem_reverse.mp mem)
    · rw [length_chain, length_reverse, only, length_singleton] at small
      obtain ⟨_, same⟩ := waited.resolve_right fun later => absurd later.1 (by omega)
      rw [only, mem_singleton] at updated
      rw [same, updated]
      exact ⟨merges.merged_le, .inr ⟨enabled, sum⟩⟩
  · have none : ∀ side, after.getSlotCount side barrier = 0 := fun side =>
      getSlotCount_of_not_linked fun task linked =>
        absurd (result.valid.barrier_lt side linked) outside.not_gt
    unfold getProducerSlotCount getConsumerSlotCount
    rw [none, none]
    exact ⟨zero_le _, .inl (zero_le _)⟩

theorem Merges.step (valid : info.Valid) (ordered : info.IndexOrdered)
    (result : MergeResult info taskInd merged batches after) :
    MergeStep info enableUnevenVariantSplit availableSlots taskInd merged after := by
  refine ⟨result.valid, result.allTaskOps_eq, ?_, merges.someone, merges.same,
    fun task inMerged => merges.single ordered result inMerged, fun task outside barrier
      linked => ?_,
    fun task outside barrier linked => ?_, ?_, merges.ordered ordered result,
    merges.controls valid result, fun barrier => merges.within result⟩
  · rw [result.barriers_eq]
    exact le_add_right _ _
  · exact (result.old_waits barrier (valid.barrier_lt .wait linked) task).mpr
      ⟨linked, fun both => outside both.2⟩
  · rcases lt_or_ge barrier info.getNumOfVirtualBarriers with old | new
    · exact .inl ((result.old_waits barrier old task).mp linked).1
    · rcases result.new_wait linked new with ⟨_, inMerged⟩ | ⟨batch, mem, inside⟩
      · exact absurd inMerged outside
      · exact .inr ⟨new, (merges.before ordered mem inside).1⟩
  · intro side barrier old task linked
    cases side
    · exact ((result.old_updates barrier old task).mp linked).1
    · exact ((result.old_waits barrier old task).mp linked).1

end

end Merge

theorem mergeParallelWaitBarriers_step (valid : info.Valid) (ordered : info.IndexOrdered)
    (fits : ∀ task, info.getNumOfSlotsUsed task ≤ availableSlots)
    (several : 2 ≤ (info.getWaitBarriers taskInd).elements.length) :
    ∃ merged after, info.mergeParallelWaitBarriers enableUnevenVariantSplit taskInd availableSlots =
        .ok after ∧
      MergeStep info enableUnevenVariantSplit availableSlots taskInd merged after := by
  obtain ⟨merged, batches, merges, result⟩ :=
    @mergeParallelWaitBarriers_merges _ info enableUnevenVariantSplit availableSlots taskInd valid
      fits several
  exact ⟨merged, _, result, merges.step valid ordered (merges.result valid)⟩

/-! ### Tasks -/

variable {Queue : Type} {original start info after : BarrierInfo Queue}
  {enableUnevenVariantSplit : Bool} {availableSlots : Nat} {merged : TaskSet} {last task : Nat}

/-! ### Tasks with several wait barriers -/

def Multi (info : BarrierInfo Queue) (task : Nat) : Prop :=
  2 ≤ (info.getWaitBarriers task).elements.length

theorem not_multi_iff (valid : info.Valid) :
    ¬ info.Multi task ↔ ∀ first second, info.waits.Linked first task →
      info.waits.Linked second task → first = second := by
  have waits : ∀ barrier, barrier ∈ info.getWaitBarriers task ↔ info.waits.Linked barrier task :=
    fun barrier => valid.mirrored .wait barrier task
  unfold Multi
  rw [not_le, length_lt_two_iff]
  simp only [waits]
  exact ⟨fun same first second one two => same first one second two,
    fun same first one second two => same first second one two⟩

/-- Tasks that wait for the same barriers, possibly in different maps. -/
def SameWaits (info : BarrierInfo Queue) (task : Nat) (other : BarrierInfo Queue)
    (otherTask : Nat) : Prop :=
  ∀ barrier, info.waits.Linked barrier task ↔ other.waits.Linked barrier otherTask

theorem SameWaits.multi_iff {other : BarrierInfo Queue} {otherTask : Nat}
    (same : SameWaits info task other otherTask) (valid : info.Valid) (otherValid : other.Valid) :
    info.Multi task ↔ other.Multi otherTask := by
  rw [← not_iff_not, not_multi_iff valid, not_multi_iff otherValid]
  refine forall₂_congr fun first second => ?_
  rw [same first, same second]

theorem Multi.exists_linked (multi : info.Multi task) (valid : info.Valid) :
    ∃ barrier, info.waits.Linked barrier task := by
  obtain ⟨barrier, mem⟩ := exists_mem_of_length_pos (zero_lt_two.trans_le multi)
  exact ⟨barrier, (valid.mirrored .wait barrier task).mp mem⟩

theorem mem_getTasksWithParallelWaitBarriers (valid : info.Valid) :
    task ∈ info.getTasksWithParallelWaitBarriers ↔ info.Multi task := by
  unfold getTasksWithParallelWaitBarriers
  rw [mem_ofList, mem_filter, mem_range, decide_eq_true_eq]
  refine and_iff_right_of_imp fun multi => ?_
  obtain ⟨_, linked⟩ := Multi.exists_linked multi valid
  exact valid.task_lt .wait linked

/-! ### What all merges keep -/

/-- What is promised of the maps while the barriers are merged. -/
structure Serves (original : BarrierInfo Queue) (enableUnevenVariantSplit : Bool)
    (availableSlots : Nat) (info : BarrierInfo Queue) : Prop where
  valid : info.Valid
  allTaskOps_eq : info.allTaskOps = original.allTaskOps
  more : original.getNumOfVirtualBarriers ≤ info.getNumOfVirtualBarriers
  ordered : info.IndexOrdered
  precedes : ∀ task child, original.Precedes task child → info.Precedes task child
  within : ∀ barrier, original.getNumOfVirtualBarriers ≤ barrier →
    WithinLimits enableUnevenVariantSplit availableSlots (info.getProducerSlotCount barrier)
      (info.getConsumerSlotCount barrier)

theorem MergeStep.getSlotCount_le
    (step : MergeStep info enableUnevenVariantSplit availableSlots task merged after)
    (side : Side) {barrier : Nat} (old : barrier < info.getNumOfVirtualBarriers) :
    after.getSlotCount side barrier ≤ info.getSlotCount side barrier := by
  rw [getSlotCount_eq, getSlotCount_eq, slotsOf_eq_of_allTaskOps step.allTaskOps_eq]
  exact slotsOf_mono (step.fewer side barrier old)

theorem Serves.step (serves : Serves original enableUnevenVariantSplit availableSlots info)
    (step : MergeStep info enableUnevenVariantSplit availableSlots task merged after) :
    Serves original enableUnevenVariantSplit availableSlots after := by
  refine ⟨step.valid, step.allTaskOps_eq.trans serves.allTaskOps_eq, serves.more.trans step.more,
    step.ordered, fun task child path => ?_, fun barrier new => ?_⟩
  · exact TransGen.closed (fun _ _ controls => step.controls controls) _ _
      (serves.precedes task child path)
  · rcases lt_or_ge barrier info.getNumOfVirtualBarriers with old | newest
    · exact (serves.within barrier new).mono (step.getSlotCount_le .update old)
        (step.getSlotCount_le .wait old)
    · exact step.within barrier newest

/-! ### One walk -/

/-- The state of a walk in front of a task, when the last task with several wait barriers is known:
a task has the wait barriers with which the walk began, or a new one. -/
structure Walk (start : BarrierInfo Queue) (last next : Nat) (info : BarrierInfo Queue) : Prop where
  more : start.getNumOfVirtualBarriers ≤ info.getNumOfVirtualBarriers
  changed : ∀ task, SameWaits info task start task ∨
    ∃ barrier, start.getNumOfVirtualBarriers ≤ barrier ∧ info.waits.Linked barrier task
  later : ∀ task, last < task → ¬ info.Multi task
  top : SameWaits info last start last ∨ ¬ info.Multi last
  done : last < next → ∃ task, SameWaits start task start last ∧ ¬ info.Multi task

theorem walk_start (later : ∀ task, last < task → ¬ start.Multi task) : Walk start last 0 start :=
  ⟨le_rfl, fun _ => .inl fun _ => Iff.rfl, later, .inl fun _ => Iff.rfl,
    fun impossible => absurd impossible (not_lt_zero last)⟩

section Step

variable {next : Nat}

theorem Walk.pass (walk : Walk start last next info) (valid : info.Valid) (startValid : start.Valid)
    (multi : start.Multi last) (single : ¬ info.Multi next) : Walk start last (next + 1) info := by
  refine ⟨walk.more, walk.changed, walk.later, walk.top, fun reached => ?_⟩
  rcases Nat.lt_succ_iff_lt_or_eq.mp reached with before | here
  · exact walk.done before
  · refine ⟨last, fun _ => Iff.rfl, ?_⟩
    rcases walk.top with same | done
    · rw [← here] at single
      exact absurd ((same.multi_iff valid startValid).mpr multi) single
    · exact done

section

variable (step : MergeStep info enableUnevenVariantSplit availableSlots next merged after)
include step

theorem MergeStep.not_multi (inMerged : task ∈ merged) : ¬ after.Multi task := by
  rw [not_multi_iff step.valid]
  intro first second one two
  exact ((step.single task inMerged first).mp one).trans
    ((step.single task inMerged second).mp two).symm

theorem MergeStep.sameWaits (outside : task ∉ merged) (behind : next ≤ task) :
    SameWaits after task info task :=
  fun barrier => ⟨fun linked => (step.added task outside barrier linked).resolve_right
    fun new => absurd new.2 behind.not_gt, step.kept task outside barrier⟩

end

theorem Walk.merge (walk : Walk start last next info) (valid : info.Valid)
    (startValid : start.Valid) (multi : info.Multi next)
    (step : MergeStep info enableUnevenVariantSplit availableSlots next merged after) :
    Walk start last (next + 1) after := by
  have before : next ≤ last := not_lt.mp fun behind => walk.later next behind multi
  refine ⟨walk.more.trans step.more, fun task => ?_, fun task behind => ?_, ?_, fun reached => ?_⟩
  · by_cases inMerged : task ∈ merged
    · exact .inr ⟨_, walk.more, (step.single task inMerged _).mpr rfl⟩
    · by_cases new : ∃ barrier, info.getNumOfVirtualBarriers ≤ barrier ∧
          after.waits.Linked barrier task
      · obtain ⟨barrier, newest, linked⟩ := new
        exact .inr ⟨barrier, walk.more.trans newest, linked⟩
      · have same : SameWaits after task info task := fun barrier =>
          ⟨fun linked => (step.added task inMerged barrier linked).resolve_right
            fun added => new ⟨barrier, added.1, linked⟩, step.kept task inMerged barrier⟩
        rcases walk.changed task with old | ⟨barrier, newer, linked⟩
        · exact .inl fun barrier => (same barrier).trans (old barrier)
        · exact .inr ⟨barrier, newer, (same barrier).mpr linked⟩
  · by_cases inMerged : task ∈ merged
    · exact step.not_multi inMerged
    · rw [(step.sameWaits inMerged (before.trans behind.le)).multi_iff step.valid valid]
      exact walk.later task behind
  · by_cases inMerged : last ∈ merged
    · exact .inr (step.not_multi inMerged)
    · have same := step.sameWaits inMerged before
      rw [same.multi_iff step.valid valid]
      exact walk.top.imp_left fun old barrier => (same barrier).trans (old barrier)
  · -- The visited task is the last one, so the merged tasks had its wait barriers at the start.
    have here : next = last := le_antisymm before (Nat.lt_succ_iff.mp reached)
    rw [here] at multi step
    have old := walk.top.resolve_right (not_not.mpr multi)
    obtain ⟨task, inMerged⟩ := step.someone
    refine ⟨task, fun barrier => ?_, step.not_multi inMerged⟩
    have same : SameWaits info task start last := fun barrier =>
      (step.same task inMerged barrier).trans (old barrier)
    have unchanged : SameWaits info task start task := by
      refine (walk.changed task).resolve_right ?_
      rintro ⟨other, newer, linked⟩
      exact absurd (startValid.barrier_lt .wait ((same other).mp linked)) newer.not_gt
    exact (unchanged barrier).symm.trans (same barrier)

end Step

/-- The tasks that wait for the same barriers as a task. -/
def waitGroup (info : BarrierInfo Queue) (task : Nat) : Finset Nat :=
  (Finset.range info.getNumOfTasks).filter fun other =>
    (info.getWaitBarriers other).sameElements (info.getWaitBarriers task) = true

theorem mem_waitGroup (valid : info.Valid) (multi : info.Multi last) :
    task ∈ info.waitGroup last ↔ SameWaits info task info last := by
  have waits : ∀ barrier task, barrier ∈ info.getWaitBarriers task ↔
      info.waits.Linked barrier task := fun barrier task => valid.mirrored .wait barrier task
  unfold waitGroup
  rw [Finset.mem_filter, Finset.mem_range, sameElements_iff]
  simp only [waits]
  refine and_iff_right_of_imp fun same => ?_
  obtain ⟨barrier, linked⟩ := multi.exists_linked valid
  exact valid.task_lt .wait ((same barrier).mpr linked)

/-- At the end of a walk the last task has a single wait barrier or fewer tasks have its wait
barriers. -/
theorem Walk.progress {next : Nat} (walk : Walk start last next info) (valid : info.Valid)
    (startValid : start.Valid) (multi : start.Multi last) (reached : last < next) :
    ¬ info.Multi last ∨ (info.waitGroup last).card < (start.waitGroup last).card := by
  refine or_iff_not_imp_left.mpr fun still => ?_
  rw [not_not] at still
  have old := walk.top.resolve_right (not_not.mpr still)
  obtain ⟨gone, sameGone, single⟩ := walk.done reached
  refine Finset.card_lt_card ((Finset.ssubset_iff_of_subset fun task mem => ?_).mpr
    ⟨gone, (mem_waitGroup startValid multi).mpr sameGone, fun mem => ?_⟩)
  · have same := (mem_waitGroup valid still).mp mem
    have unchanged : SameWaits info task start task := by
      refine (walk.changed task).resolve_right ?_
      rintro ⟨barrier, newer, linked⟩
      exact absurd (startValid.barrier_lt .wait ((old barrier).mp ((same barrier).mp linked)))
        newer.not_gt
    exact (mem_waitGroup startValid multi).mpr fun barrier =>
      (unchanged barrier).symm.trans ((same barrier).trans (old barrier))
  · have same := (mem_waitGroup valid still).mp mem
    exact single ((same.multi_iff valid valid).mpr still)

/-! ### The loop -/

theorem walk_ends (fits : ∀ task, original.getNumOfSlotsUsed task ≤ availableSlots)
    (serves : Serves original enableUnevenVariantSplit availableSlots start)
    (multi : start.Multi last) (later : ∀ task, last < task → ¬ start.Multi task)
    (modifiedIR : Bool) :
    ∃ after flag, (List.range start.getNumOfTasks).foldlM
        (visitTask enableUnevenVariantSplit availableSlots) (start, modifiedIR) =
          .ok (after, flag) ∧
      Serves original enableUnevenVariantSplit availableSlots after ∧
      Walk start last start.getNumOfTasks after := by
  have each : ∀ next < start.getNumOfTasks, ∀ state : BarrierInfo Queue × Bool,
      Serves original enableUnevenVariantSplit availableSlots state.1 ∧
        Walk start last next state.1 →
      ∃ after, visitTask enableUnevenVariantSplit availableSlots state next = .ok after ∧
        Serves original enableUnevenVariantSplit availableSlots after.1 ∧
        Walk start last (next + 1) after.1 := by
    rintro next _ ⟨info, flag⟩ ⟨current, walk⟩
    unfold visitTask
    by_cases several : info.Multi next
    · obtain ⟨merged, after, res, step⟩ :=
        @mergeParallelWaitBarriers_step _ info enableUnevenVariantSplit availableSlots next
          current.valid current.ordered (fun task => by
            rw [getNumOfSlotsUsed_congr current.allTaskOps_eq]
            exact fits task) several
      refine ⟨(after, true), ?_, current.step step,
        walk.merge current.valid serves.valid several step⟩
      rw [if_neg several.not_gt]
      rw [res]
      rfl
    · exact ⟨(info, flag), if_pos (not_le.mp several), current,
        walk.pass current.valid serves.valid multi several⟩
  obtain ⟨⟨after, flag⟩, ran, kept, walk⟩ := Run.foldlM_range _ start.getNumOfTasks each
    (start, modifiedIR) ⟨serves, walk_start later⟩
  exact ⟨after, flag, ran, kept, walk⟩

/-- The result of the loop when it ends. -/
structure Ended (original : BarrierInfo Queue) (enableUnevenVariantSplit : Bool)
    (availableSlots : Nat) (after : BarrierInfo Queue) : Prop extends
    Serves original enableUnevenVariantSplit availableSlots after where
  single : ∀ task, ¬ after.Multi task

/-- The loop ends with enough fuel. -/
def Ends (original : BarrierInfo Queue) (enableUnevenVariantSplit : Bool) (availableSlots : Nat)
    (info : BarrierInfo Queue) : Prop :=
  ∀ modifiedIR, ∃ bound, ∀ fuel, bound ≤ fuel → ∃ after flag,
    mergeWaitBarriersLoop enableUnevenVariantSplit true availableSlots fuel
        info.getTasksWithParallelWaitBarriers (info, modifiedIR) = .ok (after, flag) ∧
      Ended original enableUnevenVariantSplit availableSlots after

theorem ends_of_single (serves : Serves original enableUnevenVariantSplit availableSlots info)
    (single : ∀ task, ¬ info.Multi task) :
    Ends original enableUnevenVariantSplit availableSlots info := by
  have empty : info.getTasksWithParallelWaitBarriers.isEmpty = true :=
    isEmpty_iff.mpr fun task mem =>
      single task ((mem_getTasksWithParallelWaitBarriers serves.valid).mp mem)
  refine fun modifiedIR => ⟨1, fun fuel enough => ⟨info, modifiedIR, ?_, serves, single⟩⟩
  obtain ⟨rest, equal⟩ := Nat.exists_eq_add_of_le' enough
  rw [equal]
  exact if_pos empty

section

variable (fits : ∀ task, original.getNumOfSlotsUsed task ≤ availableSlots)
include fits

/-- One more walk. Some task got a single wait barrier in it, so the tasks with several of them are
not those of the walk before. -/
theorem ends_of_walk (serves : Serves original enableUnevenVariantSplit availableSlots info)
    (multi : info.Multi last) (later : ∀ task, last < task → ¬ info.Multi task)
    (next : ∀ after, Serves original enableUnevenVariantSplit availableSlots after →
      (∀ task, last < task → ¬ after.Multi task) →
      (¬ after.Multi last ∨ (after.waitGroup last).card < (info.waitGroup last).card) →
      Ends original enableUnevenVariantSplit availableSlots after) :
    Ends original enableUnevenVariantSplit availableSlots info := by
  intro modifiedIR
  have reached : last < info.getNumOfTasks := by
    obtain ⟨_, linked⟩ := multi.exists_linked serves.valid
    exact serves.valid.task_lt .wait linked
  obtain ⟨after, flag, ran, kept, walk⟩ := walk_ends fits serves multi later modifiedIR
  obtain ⟨bound, enough⟩ := next after kept walk.later
    (walk.progress kept.valid serves.valid multi reached) flag
  have occupied : info.getTasksWithParallelWaitBarriers.isEmpty ≠ true := fun empty =>
    isEmpty_iff.mp empty last ((mem_getTasksWithParallelWaitBarriers serves.valid).mpr multi)
  have different : after.getTasksWithParallelWaitBarriers.sameElements
      info.getTasksWithParallelWaitBarriers ≠ true := by
    intro same
    obtain ⟨gone, sameGone, single⟩ := walk.done reached
    have before : gone ∈ info.getTasksWithParallelWaitBarriers :=
      (mem_getTasksWithParallelWaitBarriers serves.valid).mpr
        ((sameGone.multi_iff serves.valid serves.valid).mpr multi)
    exact single ((mem_getTasksWithParallelWaitBarriers kept.valid).mp
      ((sameElements_iff.mp same gone).mpr before))
  refine ⟨bound + 1, fun fuel large => ?_⟩
  obtain ⟨rest, equal⟩ := Nat.exists_eq_add_of_le' (Nat.le_of_add_left_le large : 1 ≤ fuel)
  rw [equal] at large ⊢
  obtain ⟨final, finalFlag, res, ended⟩ := enough rest (le_of_succ_le_succ large)
  refine ⟨final, finalFlag, ?_, ended⟩
  unfold mergeWaitBarriersLoop
  rw [if_neg occupied]
  rw [ran]
  show (if after.getTasksWithParallelWaitBarriers.sameElements
      info.getTasksWithParallelWaitBarriers = true then _ else _) = _
  rw [if_neg different]
  exact res

/-- Induction on the last task that may have several wait barriers, and for one such task on the
number of tasks with its wait barriers. -/
theorem serves_ends (limit : Nat)
    (serves : Serves original enableUnevenVariantSplit availableSlots info)
    (later : ∀ task, limit ≤ task → ¬ info.Multi task) :
    Ends original enableUnevenVariantSplit availableSlots info := by
  induction limit generalizing info with
  | zero => exact ends_of_single serves fun task => later task (zero_le task)
  | succ last ih =>
    induction size : (info.waitGroup last).card using Nat.strong_induction_on generalizing info with
    | _ size fewer =>
      have behind : ∀ {info : BarrierInfo Queue}, (∀ task, last < task → ¬ info.Multi task) →
          ¬ info.Multi last → ∀ task, last ≤ task → ¬ info.Multi task := by
        intro info above single task below
        rcases lt_or_eq_of_le below with more | same
        · exact above task more
        · exact same ▸ single
      by_cases multi : info.Multi last
      · refine ends_of_walk fits serves multi (fun task more => later task more)
          fun after kept above progress => ?_
        rcases progress with single | less
        · exact ih kept (behind above single)
        · exact fewer _ (size ▸ less) kept (fun task more => above task more) rfl
      · exact ih serves (behind (fun task more => later task more) multi)

end

theorem serves_refl (valid : info.Valid) (ordered : info.IndexOrdered) :
    Serves info enableUnevenVariantSplit availableSlots info := by
  refine ⟨valid, rfl, le_rfl, ordered, fun _ _ path => path, fun barrier new => ?_⟩
  have none : ∀ side, info.getSlotCount side barrier = 0 := fun side =>
    getSlotCount_of_not_linked fun task linked => absurd (valid.barrier_lt side linked) new.not_gt
  unfold getProducerSlotCount getConsumerSlotCount
  rw [none, none]
  exact ⟨zero_le _, .inl (zero_le _)⟩

/-- With enough turns of its loop the function ends, and then no task waits for two barriers, all
tasks in order still are, and the new barriers are within the limits. -/
theorem ensureTasksDrivenBySingleBarrier_spec (valid : info.Valid) (ordered : info.IndexOrdered)
    (fits : ∀ taskOp ∈ info.allTaskOps, taskOp.slotCount ≤ availableSlots)
    (enableUnevenVariantSplit : Bool) :
    ∃ bound, ∀ fuel, bound ≤ fuel → ∃ after modifiedIR,
      info.ensureTasksDrivenBySingleBarrier enableUnevenVariantSplit availableSlots true fuel =
          .ok (after, modifiedIR) ∧
        (∀ task, (after.getWaitBarriers task).elements.length ≤ 1) ∧
        (∀ task child, info.Precedes task child → after.Precedes task child) ∧
        after.IndexOrdered ∧
        ∀ barrier, info.getNumOfVirtualBarriers ≤ barrier →
          WithinLimits enableUnevenVariantSplit availableSlots
            (after.getProducerSlotCount barrier) (after.getConsumerSlotCount barrier) := by
  have each : ∀ task, info.getNumOfSlotsUsed task ≤ availableSlots := by
    intro task
    unfold getNumOfSlotsUsed
    cases found : info.allTaskOps[task]? with
    | none => exact Nat.zero_le _
    | some taskOp => exact fits taskOp (mem_of_getElem? found)
  have later : ∀ task, info.getNumOfTasks ≤ task → ¬ info.Multi task := by
    intro task outside multi
    obtain ⟨_, linked⟩ := multi.exists_linked valid
    exact absurd (valid.task_lt .wait linked) outside.not_gt
  have serves : Serves info enableUnevenVariantSplit availableSlots info :=
    serves_refl valid ordered
  obtain ⟨bound, enough⟩ := serves_ends each info.getNumOfTasks serves later false
  refine ⟨bound, fun fuel large => ?_⟩
  obtain ⟨after, modifiedIR, res, ended⟩ := enough fuel large
  exact ⟨after, modifiedIR, res, fun task => Nat.lt_succ_iff.mp (not_le.mp (ended.single task)),
    ended.precedes, ended.ordered, ended.within⟩

/-- Two producers on different queues, each with a barrier of its own, and a task that waits for
both. -/
def twoWaits : List (TaskOp Nat) :=
  [⟨0, 1, [], [0], false⟩, ⟨1, 1, [], [1], false⟩, ⟨0, 1, [0, 1], [], false⟩]

theorem ensureTasksDrivenBySingleBarrier_spec_two : ∃ info : BarrierInfo Nat,
    buildBarrierMaps twoWaits 2 = .ok info ∧
      ∃ bound, ∀ fuel, bound ≤ fuel → ∃ after modifiedIR,
        info.ensureTasksDrivenBySingleBarrier false 1 true fuel = .ok (after, modifiedIR) ∧
          (∀ task, (after.getWaitBarriers task).elements.length ≤ 1) ∧
          (∀ task child, info.Precedes task child → after.Precedes task child) ∧
          after.IndexOrdered ∧
          ∀ barrier, info.getNumOfVirtualBarriers ≤ barrier →
            WithinLimits false 1 (after.getProducerSlotCount barrier)
              (after.getConsumerSlotCount barrier) := by
  obtain ⟨info, built, checked⟩ : ∃ info : BarrierInfo Nat,
      buildBarrierMaps twoWaits 2 = .ok info ∧ decide (info.IndexOrdered ∧
        ∀ taskOp ∈ info.allTaskOps, taskOp.slotCount ≤ 1) = true :=
    Run.exists_ok _ _ (by decide)
  obtain ⟨ordered, fits⟩ := of_decide_eq_true checked
  exact ⟨info, built,
    ensureTasksDrivenBySingleBarrier_spec (buildBarrierMaps_valid built).1 ordered fits false⟩

end NpuPlugin.BarrierInfo
