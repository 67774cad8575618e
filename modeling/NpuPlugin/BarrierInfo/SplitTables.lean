/-
This file describes the maps that a whole split leaves, one kind of barrier after the other: the old
barriers, the wait and update barriers of the sync tasks, and the new barriers.
-/

import NpuPlugin.BarrierInfo.SplitLoop

namespace NpuPlugin.BarrierInfo

open Nat

variable {Queue : Type} (info : BarrierInfo Queue) (blockSize : Nat) (stays : Nat → Prop)

/-! ### The links of each kind of barrier -/

variable (barrier task : Nat)

def KeptProducer : Prop :=
  info.updates.Linked barrier task ∧
    ¬ (info.Crossing blockSize barrier ∧ info.Unproduced blockSize (stays barrier) barrier task)

/-- A task of the last block has no sync task to be linked to: barrier 0 is found instead. -/
def Stray : Prop :=
  barrier = 0 ∧ ¬ task / blockSize < info.lastBlock blockSize ∧
    ∃ origin < info.getNumOfVirtualBarriers, info.ToWait blockSize origin task

def OldProducer : Prop :=
  info.KeptProducer blockSize stays barrier task ∨ info.Stray blockSize barrier task

def OldConsumer : Prop :=
  info.waits.Linked barrier task ∧
      ¬ (info.Crossing blockSize barrier ∧ info.Unconsumed blockSize barrier task) ∨
    info.Crossing blockSize barrier ∧ ¬ stays barrier ∧ info.HomeSync blockSize barrier task

def Emptied (barrier : Nat) : Prop := ∀ task, ¬ info.OldConsumer blockSize stays barrier task

/-- The task produces the wait barrier of its block before barriers are reset. -/
def WaitProducer (task : Nat) : Prop :=
  info.LastWithoutUpdate blockSize task ∨
    ∃ barrier < info.getNumOfVirtualBarriers, info.ToWait blockSize barrier task

/-- The task consumes the update barrier of a block. -/
def UpdateConsumer (block task : Nat) : Prop :=
  (info.FirstWithoutWait blockSize task ∨ ∃ barrier < info.getNumOfVirtualBarriers,
      info.Crossing blockSize barrier ∧ info.ToUpdate blockSize barrier task) ∧
    task / blockSize - 1 = block ∨
  block + 1 < info.lastBlock blockSize ∧ task = syncTask blockSize (block + 1)

/-- The four kinds of barriers. -/
inductive Kind : Nat → Prop
  | old {barrier : Nat} : barrier < info.getNumOfVirtualBarriers → Kind barrier
  | wait {block : Nat} : block < info.lastBlock blockSize →
      Kind (info.getNumOfVirtualBarriers + 2 * block)
  | update {block : Nat} : block < info.lastBlock blockSize →
      Kind (info.getNumOfVirtualBarriers + 2 * block + 1)
  | new {barrier : Nat} : barrier < info.getNumOfVirtualBarriers →
      info.NeedsNew blockSize barrier → Kind (info.newBarrierIndex blockSize barrier)

/-- The links before barriers without consumers are reset. -/
structure Redistributed (state : BarrierInfo Queue) : Prop where
  kinds : ∀ side barrier task, (state.table side).Linked barrier task → info.Kind blockSize barrier
  oldUpdates : ∀ barrier < info.getNumOfVirtualBarriers, ∀ task,
    state.updates.Linked barrier task ↔ info.OldProducer blockSize stays barrier task
  oldWaits : ∀ barrier < info.getNumOfVirtualBarriers, ∀ task,
    state.waits.Linked barrier task ↔ info.OldConsumer blockSize stays barrier task
  waitUpdates : ∀ block < info.lastBlock blockSize, ∀ task,
    state.updates.Linked (info.getNumOfVirtualBarriers + 2 * block) task ↔
      task / blockSize = block ∧ info.WaitProducer blockSize task
  waitWaits : ∀ block < info.lastBlock blockSize, ∀ task,
    state.waits.Linked (info.getNumOfVirtualBarriers + 2 * block) task ↔
      task = syncTask blockSize block
  updateUpdates : ∀ block < info.lastBlock blockSize, ∀ task,
    state.updates.Linked (info.getNumOfVirtualBarriers + 2 * block + 1) task ↔
      task = syncTask blockSize block
  updateWaits : ∀ block < info.lastBlock blockSize, ∀ task,
    state.waits.Linked (info.getNumOfVirtualBarriers + 2 * block + 1) task ↔
      info.UpdateConsumer blockSize block task
  newUpdates : ∀ barrier < info.getNumOfVirtualBarriers, info.NeedsNew blockSize barrier →
    ∀ task, state.updates.Linked (info.newBarrierIndex blockSize barrier) task ↔
      info.ToNew blockSize barrier task
  newWaits : ∀ barrier < info.getNumOfVirtualBarriers, info.NeedsNew blockSize barrier →
    ∀ task, state.waits.Linked (info.newBarrierIndex blockSize barrier) task ↔
      info.NewConsumer blockSize barrier task

variable {info} {blockSize} {stays}

/-! ### Which barrier the links of the third step go to -/

section Targets

variable {other task block : Nat}

theorem waitOf_of_lt (before : block < info.lastBlock blockSize) :
    info.waitOf blockSize block = info.getNumOfVirtualBarriers + 2 * block :=
  if_pos before

theorem waitOf_of_not_lt (final : ¬ block < info.lastBlock blockSize) :
    info.waitOf blockSize block = 0 :=
  if_neg final

variable {barrier : Nat}

theorem Valid.task_lt_of_touches (valid : info.Valid) (touches : info.Touches barrier task) :
    task < info.getNumOfTasks :=
  touches.elim (valid.task_lt .update) (valid.task_lt .wait)

theorem ToUpdate.block_lt (valid : info.Valid) (toUpdate : info.ToUpdate blockSize barrier task) :
    0 < task / blockSize ∧ task / blockSize - 1 < info.lastBlock blockSize := by
  obtain ⟨touches, outside, _⟩ := toUpdate
  have bound := div_le_lastBlock blockSize (valid.task_lt_of_touches touches)
  have late : 0 < task / blockSize := by
    refine Nat.pos_of_ne_zero fun first => outside fun other _ => ?_
    rw [first]
    exact Nat.zero_le _
  omega

/-- All links that the third step adds to a producer. -/
def AllProduced (info : BarrierInfo Queue) (blockSize other task : Nat) : Prop :=
  ∃ barrier < info.getNumOfVirtualBarriers, info.Crossing blockSize barrier ∧
    info.Produced blockSize barrier (info.newBarrierIndex blockSize barrier) other task

def AllConsumed (info : BarrierInfo Queue) (blockSize : Nat) (stays : Nat → Prop)
    (other task : Nat) : Prop :=
  ∃ barrier < info.getNumOfVirtualBarriers, info.Crossing blockSize barrier ∧
    info.Consumed blockSize (stays barrier) barrier (info.newBarrierIndex blockSize barrier)
      other task

theorem allProduced_old (inside : other < info.getNumOfVirtualBarriers) :
    info.AllProduced blockSize other task ↔ info.Stray blockSize other task := by
  constructor
  · rintro ⟨barrier, bound, _, ⟨idx, toWait⟩ | ⟨idx, _⟩⟩
    · by_cases before : task / blockSize < info.lastBlock blockSize
      · rw [waitOf_of_lt before] at idx
        omega
      · rw [waitOf_of_not_lt before] at idx
        exact ⟨idx, before, barrier, bound, toWait⟩
    · have least := le_newBarrierIndex info blockSize barrier
      omega
  · rintro ⟨rfl, final, barrier, bound, toWait⟩
    exact ⟨barrier, bound, toWait.1.crossing, .inl ⟨(waitOf_of_not_lt final).symm, toWait⟩⟩

theorem allProduced_wait (before : block < info.lastBlock blockSize) :
    info.AllProduced blockSize (info.getNumOfVirtualBarriers + 2 * block) task ↔
      task / blockSize = block ∧
        ∃ barrier < info.getNumOfVirtualBarriers, info.ToWait blockSize barrier task := by
  constructor
  · rintro ⟨barrier, bound, _, ⟨idx, toWait⟩ | ⟨idx, _⟩⟩
    · refine ⟨?_, barrier, bound, toWait⟩
      by_cases own : task / blockSize < info.lastBlock blockSize
      · rw [waitOf_of_lt own] at idx
        omega
      · rw [waitOf_of_not_lt own] at idx
        omega
    · have least := le_newBarrierIndex info blockSize barrier
      omega
  · rintro ⟨rfl, barrier, bound, toWait⟩
    exact ⟨barrier, bound, toWait.1.crossing, .inl ⟨(waitOf_of_lt before).symm, toWait⟩⟩

theorem not_allProduced_update (before : block < info.lastBlock blockSize) :
    ¬ info.AllProduced blockSize (info.getNumOfVirtualBarriers + 2 * block + 1) task := by
  rintro ⟨barrier, bound, _, ⟨idx, _⟩ | ⟨idx, _⟩⟩
  · by_cases own : task / blockSize < info.lastBlock blockSize
    · rw [waitOf_of_lt own] at idx
      omega
    · rw [waitOf_of_not_lt own] at idx
      omega
  · have least := le_newBarrierIndex info blockSize barrier
    omega

theorem allProduced_new (bound : barrier < info.getNumOfVirtualBarriers)
    (needs : info.NeedsNew blockSize barrier) :
    info.AllProduced blockSize (info.newBarrierIndex blockSize barrier) task ↔
      info.ToNew blockSize barrier task := by
  have least := le_newBarrierIndex info blockSize barrier
  constructor
  · rintro ⟨origin, _, _, ⟨idx, _⟩ | ⟨idx, toNew⟩⟩
    · by_cases own : task / blockSize < info.lastBlock blockSize
      · rw [waitOf_of_lt own] at idx
        omega
      · rw [waitOf_of_not_lt own] at idx
        omega
    · rw [newBarrierIndex_inj needs ⟨task, toNew⟩ idx]
      exact toNew
  · exact fun toNew => ⟨barrier, bound, toNew.1.crossing, .inr ⟨rfl, toNew⟩⟩

theorem allConsumed_old (inside : other < info.getNumOfVirtualBarriers) :
    info.AllConsumed blockSize stays other task ↔
      info.Crossing blockSize other ∧ ¬ stays other ∧ info.HomeSync blockSize other task := by
  constructor
  · rintro ⟨barrier, _, crossing, ⟨rfl, left, sync⟩ | ⟨idx, _⟩ | ⟨idx, _⟩⟩
    · exact ⟨crossing, left, sync⟩
    · omega
    · have least := le_newBarrierIndex info blockSize barrier
      omega
  · exact fun ⟨crossing, left, sync⟩ => ⟨other, inside, crossing, .inl ⟨rfl, left, sync⟩⟩

theorem not_allConsumed_wait (before : block < info.lastBlock blockSize) :
    ¬ info.AllConsumed blockSize stays (info.getNumOfVirtualBarriers + 2 * block) task := by
  rintro ⟨barrier, _, _, ⟨idx, _⟩ | ⟨idx, _⟩ | ⟨idx, _⟩⟩
  · omega
  · omega
  · have least := le_newBarrierIndex info blockSize barrier
    omega

theorem allConsumed_update (before : block < info.lastBlock blockSize) :
    info.AllConsumed blockSize stays (info.getNumOfVirtualBarriers + 2 * block + 1) task ↔
      (∃ barrier < info.getNumOfVirtualBarriers, info.Crossing blockSize barrier ∧
        info.ToUpdate blockSize barrier task) ∧ task / blockSize - 1 = block := by
  constructor
  · rintro ⟨barrier, bound, crossing, ⟨idx, _⟩ | ⟨idx, toUpdate⟩ | ⟨idx, _⟩⟩
    · omega
    · exact ⟨⟨barrier, bound, crossing, toUpdate⟩, by omega⟩
    · have least := le_newBarrierIndex info blockSize barrier
      omega
  · rintro ⟨⟨barrier, bound, crossing, toUpdate⟩, rfl⟩
    exact ⟨barrier, bound, crossing, .inr (.inl ⟨rfl, toUpdate⟩)⟩

theorem allConsumed_new (bound : barrier < info.getNumOfVirtualBarriers) (valid : info.Valid)
    (needs : info.NeedsNew blockSize barrier) :
    info.AllConsumed blockSize stays (info.newBarrierIndex blockSize barrier) task ↔
      info.NewConsumer blockSize barrier task := by
  have least := le_newBarrierIndex info blockSize barrier
  constructor
  · rintro ⟨origin, inside, _, ⟨idx, _⟩ | ⟨idx, toUpdate⟩ | ⟨idx, newConsumer⟩⟩
    · omega
    · have late := toUpdate.block_lt valid
      omega
    · obtain ⟨_, producer, toNew, _⟩ := id newConsumer
      rw [newBarrierIndex_inj needs ⟨producer, toNew⟩ idx]
      exact newConsumer
  · intro newConsumer
    obtain ⟨_, producer, toNew, _⟩ := id newConsumer
    exact ⟨barrier, bound, toNew.1.crossing, .inr (.inr ⟨rfl, newConsumer⟩)⟩

end Targets

/-! ### The state after the first four steps -/

theorem FirstWithoutWait.block_lt {task : Nat} (found : info.FirstWithoutWait blockSize task) :
    task / blockSize - 1 < info.lastBlock blockSize := by
  have bound := div_le_lastBlock blockSize
    ((lt_succ_self task).trans found.inside)
  have late := found.block
  omega

/-- The state before the third step: the barriers of the sync tasks with the ends of the queues. -/
structure Prepared (info : BarrierInfo Queue) (blockSize : Nat) (base : BarrierInfo Queue) :
    Prop where
  updates : ∀ other task, base.updates.Linked other task ↔
    (info.updates.Linked other task ∨ ∃ block < info.lastBlock blockSize,
      other = info.getNumOfVirtualBarriers + 2 * block + 1 ∧ task = syncTask blockSize block) ∨
    info.LastWithoutUpdate blockSize task ∧
      other = info.getNumOfVirtualBarriers + 2 * (task / blockSize)
  waits : ∀ other task, base.waits.Linked other task ↔
    (info.waits.Linked other task ∨ ∃ block < info.lastBlock blockSize,
      other = info.getNumOfVirtualBarriers + 2 * block ∧ task = syncTask blockSize block) ∨
    info.FirstWithoutWait blockSize task ∧
      other = info.getNumOfVirtualBarriers + 2 * (task / blockSize - 1) + 1

section Prepared

variable {base : BarrierInfo Queue}

theorem Prepared.updates_old (prepared : Prepared info blockSize base) :
    ∀ barrier < info.getNumOfVirtualBarriers, ∀ task,
      base.updates.Linked barrier task ↔ info.updates.Linked barrier task := by
  intro barrier inside task
  rw [prepared.updates, or_assoc]
  refine or_iff_left ?_
  rintro (⟨block, _, idx, _⟩ | ⟨_, idx⟩) <;> omega

theorem Prepared.waits_old (prepared : Prepared info blockSize base) :
    ∀ barrier < info.getNumOfVirtualBarriers, ∀ task,
      base.waits.Linked barrier task ↔ info.waits.Linked barrier task := by
  intro barrier inside task
  rw [prepared.waits, or_assoc]
  refine or_iff_left ?_
  rintro (⟨block, _, idx, _⟩ | ⟨_, idx⟩) <;> omega

theorem Valid.not_linked (valid : info.Valid) (side : Side) {barrier : Nat}
    (late : info.getNumOfVirtualBarriers ≤ barrier) (task : Nat) :
    ¬ (info.table side).Linked barrier task :=
  fun link => absurd (valid.barrier_lt side link) late.not_gt

section Rows

variable (valid : info.Valid) (prepared : Prepared info blockSize base) {block : Nat} (task : Nat)

include valid prepared

theorem Prepared.updates_wait :
    base.updates.Linked (info.getNumOfVirtualBarriers + 2 * block) task ↔
      info.LastWithoutUpdate blockSize task ∧ task / blockSize = block := by
  have old : ¬ info.updates.Linked (info.getNumOfVirtualBarriers + 2 * block) task :=
    valid.not_linked .update (le_add_right _ _) task
  rw [prepared.updates, or_iff_right]
  · exact and_congr_right fun _ => ⟨fun idx => by omega, fun own => by rw [own]⟩
  · rintro (link | ⟨other, _, idx, _⟩)
    · exact old link
    · omega

theorem Prepared.waits_wait (before : block < info.lastBlock blockSize) :
    base.waits.Linked (info.getNumOfVirtualBarriers + 2 * block) task ↔
      task = syncTask blockSize block := by
  have old : ¬ info.waits.Linked (info.getNumOfVirtualBarriers + 2 * block) task :=
    valid.not_linked .wait (le_add_right _ _) task
  rw [prepared.waits, or_iff_left (by rintro ⟨_, idx⟩; omega), or_iff_right old]
  constructor
  · rintro ⟨other, _, idx, rfl⟩
    rw [show block = other by omega]
  · exact fun same => ⟨block, before, rfl, same⟩

theorem Prepared.updates_update (before : block < info.lastBlock blockSize) :
    base.updates.Linked (info.getNumOfVirtualBarriers + 2 * block + 1) task ↔
      task = syncTask blockSize block := by
  have old : ¬ info.updates.Linked (info.getNumOfVirtualBarriers + 2 * block + 1) task :=
    valid.not_linked .update (le_add_right _ (2 * block + 1)) task
  rw [prepared.updates, or_iff_left (by rintro ⟨_, idx⟩; omega), or_iff_right old]
  constructor
  · rintro ⟨other, _, idx, rfl⟩
    rw [show block = other by omega]
  · exact fun same => ⟨block, before, rfl, same⟩

theorem Prepared.waits_update :
    base.waits.Linked (info.getNumOfVirtualBarriers + 2 * block + 1) task ↔
      info.FirstWithoutWait blockSize task ∧ task / blockSize - 1 = block := by
  have old : ¬ info.waits.Linked (info.getNumOfVirtualBarriers + 2 * block + 1) task :=
    valid.not_linked .wait (le_add_right _ (2 * block + 1)) task
  rw [prepared.waits, or_iff_right]
  · exact and_congr_right fun _ => ⟨fun idx => by omega, fun own => by rw [own]⟩
  · rintro (link | ⟨other, _, idx, _⟩)
    · exact old link
    · omega

theorem Prepared.not_linked_new (side : Side) (barrier : Nat) :
    ¬ (base.table side).Linked (info.newBarrierIndex blockSize barrier) task := by
  have least := le_newBarrierIndex info blockSize barrier
  intro link
  cases side with
  | update =>
    rcases (prepared.updates _ task).mp link with (old | ⟨other, less, idx, _⟩) | ⟨found, idx⟩
    · exact valid.not_linked .update ((le_add_right _ _).trans least) task old
    · omega
    · have less := found.block
      omega
  | wait =>
    rcases (prepared.waits _ task).mp link with (old | ⟨other, less, idx, _⟩) | ⟨found, idx⟩
    · exact valid.not_linked .wait ((le_add_right _ _).trans least) task old
    · omega
    · have less := found.block_lt
      omega

end Rows

end Prepared

/-- The links after the fourth step. -/
structure Linked4 (info : BarrierInfo Queue) (blockSize : Nat) (stays : Nat → Prop)
    (base state : BarrierInfo Queue) : Prop where
  updates : ∀ other task, state.updates.Linked other task ↔
    base.updates.Linked other task ∧ ¬ (other < info.getNumOfVirtualBarriers ∧
      info.Crossing blockSize other ∧ info.Unproduced blockSize (stays other) other task) ∨
    info.AllProduced blockSize other task
  waits : ∀ other task, state.waits.Linked other task ↔
    (base.waits.Linked other task ∧ ¬ (other < info.getNumOfVirtualBarriers ∧
        info.Crossing blockSize other ∧ info.Unconsumed blockSize other task) ∨
      info.AllConsumed blockSize stays other task) ∨
    ∃ block, block + 1 < info.lastBlock blockSize ∧
      other = info.getNumOfVirtualBarriers + 2 * block + 1 ∧
        task = syncTask blockSize (block + 1)

section Linked4

variable {base state : BarrierInfo Queue}

section

variable (valid : info.Valid) (prepared : Prepared info blockSize base)
  (linked : Linked4 info blockSize stays base state)
include valid prepared linked

theorem Linked4.kind (side : Side) {barrier task : Nat}
    (link : (state.table side).Linked barrier task) : info.Kind blockSize barrier := by
  cases side with
  | update =>
    rcases (linked.updates barrier task).mp link with ⟨before, _⟩ |
      ⟨origin, bound, _, ⟨idx, _⟩ | ⟨idx, toNew⟩⟩
    · rcases (prepared.updates barrier task).mp before with
        (old | ⟨block, less, rfl, _⟩) | ⟨found, rfl⟩
      · exact .old (valid.barrier_lt .update old)
      · exact .update less
      · exact .wait found.block
    · by_cases own : task / blockSize < info.lastBlock blockSize
      · rw [idx, waitOf_of_lt own]
        exact .wait own
      · rw [idx, waitOf_of_not_lt own]
        exact .old ((zero_le origin).trans_lt bound)
    · rw [idx]
      exact .new bound ⟨task, toNew⟩
  | wait =>
    rcases (linked.waits barrier task).mp link with (⟨before, _⟩ |
      ⟨origin, bound, _, ⟨idx, _⟩ | ⟨idx, toUpdate⟩ | ⟨idx, newConsumer⟩⟩) |
      ⟨block, less, rfl, _⟩
    · rcases (prepared.waits barrier task).mp before with
        (old | ⟨block, less, rfl, _⟩) | ⟨found, rfl⟩
      · exact .old (valid.barrier_lt .wait old)
      · exact .wait less
      · exact .update found.block_lt
    · rw [idx]
      exact .old bound
    · rw [idx]
      exact .update (toUpdate.block_lt valid).2
    · rw [idx]
      obtain ⟨_, producer, toNew, _⟩ := newConsumer
      exact .new bound ⟨producer, toNew⟩
    · exact .update ((lt_succ_self block).trans less)

theorem Linked4.redistributed : Redistributed info blockSize stays state := by
  have late : ∀ offset, ¬ info.getNumOfVirtualBarriers + offset < info.getNumOfVirtualBarriers :=
    fun offset => (le_add_right _ offset).not_gt
  refine ⟨fun side barrier task => linked.kind valid prepared side, ?_, ?_, ?_, ?_, ?_, ?_, ?_, ?_⟩
  · intro barrier inside task
    rw [linked.updates, prepared.updates_old barrier inside, allProduced_old inside]
    simp only [inside, true_and]
    exact Iff.rfl
  · intro barrier inside task
    have noChain : ¬ ∃ block, block + 1 < info.lastBlock blockSize ∧
        barrier = info.getNumOfVirtualBarriers + 2 * block + 1 ∧
          task = syncTask blockSize (block + 1) := by
      rintro ⟨block, _, idx, _⟩
      omega
    rw [linked.waits, prepared.waits_old barrier inside, allConsumed_old inside,
      or_iff_left noChain]
    simp only [inside, true_and]
    exact Iff.rfl
  · intro block before task
    rw [linked.updates, prepared.updates_wait valid, allProduced_wait before, and_iff_left,
      and_comm,
      ← and_or_left]
    · exact Iff.rfl
    · exact fun conditions => late _ conditions.1
  · intro block before task
    rw [linked.waits, prepared.waits_wait valid task before, or_iff_left, or_iff_left, and_iff_left]
    · exact fun conditions => late _ conditions.1
    · exact not_allConsumed_wait before
    · rintro ⟨other, _, idx, _⟩
      omega
  · intro block before task
    rw [linked.updates, prepared.updates_update valid task before, or_iff_left, and_iff_left]
    · exact fun conditions => late (2 * block + 1) conditions.1
    · exact not_allProduced_update before
  · intro block before task
    rw [linked.waits, prepared.waits_update valid, allConsumed_update before, and_iff_left,
      ← or_and_right]
    · refine or_congr Iff.rfl ⟨?_, fun ⟨less, same⟩ => ⟨block, less, rfl, same⟩⟩
      rintro ⟨other, less, idx, rfl⟩
      rw [show block = other by omega]
      exact ⟨less, rfl⟩
    · exact fun conditions => late (2 * block + 1) conditions.1
  · intro barrier inside needs task
    rw [linked.updates, allProduced_new inside needs, or_iff_right]
    exact fun conditions => prepared.not_linked_new valid task .update barrier conditions.1
  · intro barrier inside needs task
    have least := le_newBarrierIndex info blockSize barrier
    rw [linked.waits, allConsumed_new inside valid needs, or_iff_left, or_iff_right]
    · exact fun conditions => prepared.not_linked_new valid task .wait barrier conditions.1
    · rintro ⟨other, _, idx, _⟩
      omega

end

end Linked4

/-! ### The result of the split -/

/-- What a split leaves. -/
structure SplitResult (info : BarrierInfo Queue) (blockSize : Nat) (stays : Nat → Prop)
    (after : BarrierInfo Queue) : Prop where
  valid : after.Valid
  tasks : after.getNumOfTasks = info.getNumOfTasks
  queues : ∀ task, after.queueTypeOf task = info.queueTypeOf task
  ids : after.syncTasksIds = info.syncTasksIds
  splittable : ∀ barrier < info.getNumOfVirtualBarriers, info.Splittable blockSize barrier
  kept : ∀ barrier < info.getNumOfVirtualBarriers, info.Crossing blockSize barrier →
    stays barrier → ∀ task, info.HomeSync blockSize barrier task →
      info.updates.Linked barrier task
  kinds : ∀ side barrier task, (after.table side).Linked barrier task → info.Kind blockSize barrier
  oldProduced : ∀ barrier < info.getNumOfVirtualBarriers,
    ∃ producer, info.KeptProducer blockSize stays barrier producer
  oldUpdates : ∀ barrier < info.getNumOfVirtualBarriers, ∀ task,
    after.updates.Linked barrier task ↔ info.OldProducer blockSize stays barrier task ∧
      ¬ info.Emptied blockSize stays barrier
  oldWaits : ∀ barrier < info.getNumOfVirtualBarriers, ∀ task,
    after.waits.Linked barrier task ↔ info.OldConsumer blockSize stays barrier task
  waitUpdates : ∀ block < info.lastBlock blockSize, ∀ task,
    after.updates.Linked (info.getNumOfVirtualBarriers + 2 * block) task ↔
      task / blockSize = block ∧ (info.WaitProducer blockSize task ∨
        ∃ barrier < info.getNumOfVirtualBarriers, info.Emptied blockSize stays barrier ∧
          info.KeptProducer blockSize stays barrier task ∧ task ≠ syncTask blockSize block)
  waitWaits : ∀ block < info.lastBlock blockSize, ∀ task,
    after.waits.Linked (info.getNumOfVirtualBarriers + 2 * block) task ↔
      task = syncTask blockSize block ∧ ∃ producer,
        after.updates.Linked (info.getNumOfVirtualBarriers + 2 * block) producer
  updateUpdates : ∀ block < info.lastBlock blockSize, ∀ task,
    after.updates.Linked (info.getNumOfVirtualBarriers + 2 * block + 1) task ↔
      task = syncTask blockSize block
  updateWaits : ∀ block < info.lastBlock blockSize, ∀ task,
    after.waits.Linked (info.getNumOfVirtualBarriers + 2 * block + 1) task ↔
      info.UpdateConsumer blockSize block task
  newUpdates : ∀ barrier < info.getNumOfVirtualBarriers, info.NeedsNew blockSize barrier →
    ∀ task, after.updates.Linked (info.newBarrierIndex blockSize barrier) task ↔
      info.ToNew blockSize barrier task
  newWaits : ∀ barrier < info.getNumOfVirtualBarriers, info.NeedsNew blockSize barrier →
    ∀ task, after.waits.Linked (info.newBarrierIndex blockSize barrier) task ↔
      info.NewConsumer blockSize barrier task

section Result

variable {base state : BarrierInfo Queue} {barrier task : Nat}

theorem Crossing.home_lt (crossing : info.Crossing blockSize barrier) (valid : info.Valid)
    (inHome : info.InHome blockSize barrier task) :
    task / blockSize < info.lastBlock blockSize := by
  obtain ⟨first, second, touches, otherTouches, different⟩ := crossing
  have least := inHome first touches
  have otherLeast := inHome second otherTouches
  have bound := div_le_lastBlock blockSize (valid.task_lt_of_touches touches)
  have otherBound := div_le_lastBlock blockSize
    (valid.task_lt_of_touches otherTouches)
  omega

theorem Redirecting.oldProduced {base state : SplitState Queue} {count : Nat}
    (redirecting : Redirecting info blockSize base stays count state) (barrier : Nat)
    (inside : barrier < count) : ∃ producer, info.KeptProducer blockSize stays barrier
      producer := by
  by_cases crossing : info.Crossing blockSize barrier
  · by_cases remains : stays barrier
    · obtain ⟨producer, linked, inHome⟩ :=
        (redirecting.splittable barrier inside).homeProduced crossing
      refine ⟨producer, linked, ?_⟩
      rintro ⟨_, moved | ⟨left, _⟩⟩
      · exact moved.2 inHome
      · exact left remains
    · obtain ⟨producer, linked, inHome, other⟩ := redirecting.left barrier inside crossing remains
      refine ⟨producer, linked, ?_⟩
      rintro ⟨_, moved | ⟨_, sync⟩⟩
      · exact moved.2 inHome
      · exact other sync
  · obtain ⟨producer, linked⟩ := (redirecting.splittable barrier inside).produced
    exact ⟨producer, linked, fun conditions => crossing conditions.1⟩

theorem KeptProducer.block_lt (valid : info.Valid) (splittable : info.Splittable blockSize barrier)
    (emptied : info.Emptied blockSize stays barrier)
    (kept : info.KeptProducer blockSize stays barrier task) :
    task / blockSize < info.lastBlock blockSize := by
  have crossing : info.Crossing blockSize barrier := by
    by_contra inner
    obtain ⟨consumer, linked⟩ := splittable.consumed
    exact emptied consumer (.inl ⟨linked, fun conditions => inner conditions.1⟩)
  refine crossing.home_lt valid (not_not.mp fun outside => ?_)
  exact kept.2 ⟨crossing, .inl ⟨kept.1, outside⟩⟩

theorem Redistributed.unused_iff (redistributed : Redistributed info blockSize stays state)
    (inside : barrier < info.getNumOfVirtualBarriers) :
    state.Unused barrier ↔ info.Emptied blockSize stays barrier :=
  forall_congr' fun task => not_congr (redistributed.oldWaits barrier inside task)

theorem waitBarInd_of_getElem? {state : SplitState Queue} {pair : Nat × Nat}
    (found : state.syncTaskWaitAndUpdateBarrierIndMap[task]? = some pair) :
    state.waitBarInd task = pair.1 := by
  unfold SplitState.waitBarInd
  rw [Std.TreeMap.getD_eq_getD_getElem?, found]
  rfl

theorem Splitting.mem_pairs {state : SplitState Queue}
    (splitting : Splitting info blockSize state) (other : Nat) :
    ((∃ block < info.lastBlock blockSize, other = info.getNumOfVirtualBarriers + 2 * block) →
      ∃ pair ∈ state.syncTaskWaitAndUpdateBarrierIndMap.toList.map Prod.snd, other = pair.1) ∧
    ((∃ pair ∈ state.syncTaskWaitAndUpdateBarrierIndMap.toList.map Prod.snd, other = pair.1) →
      (∃ block < info.lastBlock blockSize, other = info.getNumOfVirtualBarriers + 2 * block) ∨
        other = 0) := by
  constructor
  · rintro ⟨block, before, rfl⟩
    obtain ⟨pair, found⟩ := Option.isSome_iff_exists.mp
      (Std.TreeMap.mem_iff_isSome_getElem?.mp (splitting.mem block before))
    refine ⟨pair, List.mem_map_of_mem (Std.TreeMap.mem_toList_iff_getElem?_eq_some.mpr found), ?_⟩
    rw [← splitting.wait block before, waitBarInd_of_getElem? found]
  · rintro ⟨pair, mem, rfl⟩
    obtain ⟨⟨task, _⟩, listed, rfl⟩ := List.mem_map.mp mem
    have found := Std.TreeMap.mem_toList_iff_getElem?_eq_some.mp listed
    rw [← waitBarInd_of_getElem? found]
    by_cases sync : ∃ block < info.lastBlock blockSize, task = syncTask blockSize block
    · obtain ⟨block, before, rfl⟩ := sync
      exact .inl ⟨block, before, splitting.wait block before⟩
    · exact .inr (splitting.missing task fun block before same => sync ⟨block, before, same⟩)

theorem Redistributed.finished (redistributed : Redistributed info blockSize stays state)
    (blocks : 0 < info.lastBlock blockSize)
    (splittable : ∀ barrier < info.getNumOfVirtualBarriers, info.Splittable blockSize barrier)
    (kept : ∀ barrier < info.getNumOfVirtualBarriers, info.Crossing blockSize barrier →
      stays barrier → ∀ task, info.HomeSync blockSize barrier task →
        info.updates.Linked barrier task) (oldProduced : ∀ barrier < info.getNumOfVirtualBarriers,
      ∃ producer, info.KeptProducer blockSize stays barrier producer)
    {start last : SplitState Queue} (same : start.info = state)
    (sanitizing : Sanitizing info blockSize start info.getNumOfVirtualBarriers last)
    {after : BarrierInfo Queue} (untouched : Untouched last.info after)
    (tables : ∀ side, after.table side =
      ((last.syncTaskWaitAndUpdateBarrierIndMap.toList.map Prod.snd).foldl removeUnusedBarriers
        last.info).table side) : SplitResult info blockSize stays after := by
  subst same
  have splitting := sanitizing.splitting
  -- The links after the fifth step.
  have unused : ∀ barrier < info.getNumOfVirtualBarriers,
      (start.info.Unused barrier ↔ info.Emptied blockSize stays barrier) :=
    fun barrier => redistributed.unused_iff
  have oldUpdates : ∀ barrier < info.getNumOfVirtualBarriers, ∀ task,
      last.info.updates.Linked barrier task ↔ info.OldProducer blockSize stays barrier task ∧
        ¬ info.Emptied blockSize stays barrier := by
    intro barrier inside task
    rw [sanitizing.updates, redistributed.oldUpdates barrier inside, unused barrier inside]
    simp only [inside, true_and]
    refine or_iff_left ?_
    rintro ⟨_, _, _, idx⟩
    omega
  have newer : ∀ offset task,
      last.info.updates.Linked (info.getNumOfVirtualBarriers + offset) task ↔
        start.info.updates.Linked (info.getNumOfVirtualBarriers + offset) task ∨
        ∃ barrier < info.getNumOfVirtualBarriers,
          start.info.HandedOver blockSize (info.lastBlock blockSize) barrier task ∧
            offset = 2 * (task / blockSize) := by
    intro offset task
    rw [sanitizing.updates, and_iff_left fun conditions =>
      absurd conditions.1 (le_add_right _ offset).not_gt]
    simp only [add_left_cancel_iff]
  have notHanded : ∀ offset task, (∀ block < info.lastBlock blockSize, offset ≠ 2 * block) →
      (last.info.updates.Linked (info.getNumOfVirtualBarriers + offset) task ↔
        start.info.updates.Linked (info.getNumOfVirtualBarriers + offset) task) := by
    intro offset task other
    rw [newer]
    refine or_iff_left ?_
    rintro ⟨barrier, _, handed, idx⟩
    exact other _ handed.2.2.1 idx
  -- The links after the sixth step: only an unused wait barrier loses its consumer.
  let hit := fun other => ∃ pair ∈ last.syncTaskWaitAndUpdateBarrierIndMap.toList.map Prod.snd,
    other = pair.1
  have waitHit : ∀ block < info.lastBlock blockSize,
      hit (info.getNumOfVirtualBarriers + 2 * block) :=
    fun block before => (splitting.mem_pairs _).1 ⟨block, before, rfl⟩
  have updates : ∀ other task, after.updates.Linked other task ↔
      last.info.updates.Linked other task := by
    intro other task
    rw [show after.updates = _ from tables .update]
    refine (removeUnusedBarriers_foldl_linked .update _ other task).trans (and_iff_left_of_imp ?_)
    rintro linked ⟨found, none⟩
    have emptyWait : ∀ node, ¬ start.info.waits.Linked other node :=
      fun node link => none node ((sanitizing.waits other node).mpr link)
    rcases (splitting.mem_pairs other).2 found with ⟨block, before, rfl⟩ | rfl
    · exact emptyWait _ ((redistributed.waitWaits block before _).mpr rfl)
    · by_cases inside : 0 < info.getNumOfVirtualBarriers
      · refine ((oldUpdates 0 inside task).mp linked).2 fun node consumer => ?_
        exact emptyWait node ((redistributed.oldWaits 0 inside node).mpr consumer)
      · have idx : info.getNumOfVirtualBarriers + 2 * 0 = 0 := by omega
        have consumer := (redistributed.waitWaits 0 blocks _).mpr rfl
        rw [idx] at consumer
        exact emptyWait _ consumer
  have waits : ∀ other task, after.waits.Linked other task ↔ start.info.waits.Linked other task ∧
      ¬ (hit other ∧ ∀ node, ¬ last.info.updates.Linked other node) := by
    intro other task
    rw [show after.waits = _ from tables .wait, ← sanitizing.waits]
    exact removeUnusedBarriers_foldl_linked .wait _ other task
  have notHit : ∀ offset, (∀ block < info.lastBlock blockSize, offset ≠ 2 * block) →
      ¬ hit (info.getNumOfVirtualBarriers + offset) := by
    intro offset other found
    rcases (splitting.mem_pairs _).2 found with ⟨block, before, idx⟩ | zero
    · exact other block before (by omega)
    · exact other 0 blocks (by omega)
  refine ⟨untouched.valid splitting.valid, untouched.tasks.trans splitting.tasks,
    fun task => (untouched.queues task).trans ?_, untouched.ids.trans splitting.ids, splittable,
    kept, ?_, oldProduced, fun barrier inside task => (updates _ _).trans (oldUpdates _ inside _),
    ?_, ?_, ?_, ?_, ?_, ?_, ?_⟩
  · unfold queueTypeOf
    rw [splitting.allTaskOps]
  · intro side barrier task linked
    cases side with
    | update =>
      rcases (sanitizing.updates _ _).mp ((updates _ _).mp linked) with ⟨before, _⟩ |
        ⟨_, _, handed, rfl⟩
      · exact redistributed.kinds .update _ _ before
      · exact .wait handed.2.2.1
    | wait => exact redistributed.kinds .wait _ _ ((waits _ _).mp linked).1
  · intro barrier inside task
    rw [waits, redistributed.oldWaits barrier inside]
    refine and_iff_left_of_imp ?_
    rintro consumer ⟨_, none⟩
    obtain ⟨producer, keeps⟩ := oldProduced barrier inside
    exact none producer ((oldUpdates barrier inside producer).mpr
      ⟨.inl keeps, fun emptied => emptied task consumer⟩)
  · intro block before task
    rw [updates, newer, redistributed.waitUpdates block before, and_or_left]
    refine or_congr_right ⟨?_, ?_⟩
    · rintro ⟨barrier, inside, ⟨emptied, linked, early, itself⟩, idx⟩
      have own : task / blockSize = block := by omega
      rw [own] at itself
      refine ⟨own, barrier, inside, (unused barrier inside).mp emptied, ?_, itself⟩
      exact ((redistributed.oldUpdates barrier inside task).mp linked).resolve_right
        fun stray => stray.2.1 early
    · rintro ⟨rfl, barrier, inside, emptied, keeps, itself⟩
      exact ⟨barrier, inside, ⟨(unused barrier inside).mpr emptied,
        (redistributed.oldUpdates barrier inside task).mpr (.inl keeps), before, itself⟩, rfl⟩
  · intro block before task
    rw [waits, redistributed.waitWaits block before]
    refine and_congr_right fun _ => ?_
    rw [not_and, exists_congr fun producer => updates _ producer, ← not_forall_not]
    exact ⟨fun filled => filled (waitHit block before), fun filled _ => filled⟩
  · intro block before task
    rw [updates, ← redistributed.updateUpdates block before]
    exact notHanded (2 * block + 1) task fun other _ => by omega
  · intro block before task
    rw [waits, redistributed.updateWaits block before]
    exact and_iff_left fun conditions =>
      notHit (2 * block + 1) (fun other _ => by omega) conditions.1
  · intro barrier inside needs task
    rw [updates, ← redistributed.newUpdates barrier inside needs]
    unfold newBarrierIndex
    rw [add_assoc]
    exact notHanded _ task fun block before => by omega
  · intro barrier inside needs task
    rw [waits, redistributed.newWaits barrier inside needs]
    refine and_iff_left fun conditions => ?_
    have found := conditions.1
    unfold newBarrierIndex at found
    rw [add_assoc] at found
    exact notHit _ (fun block before => by omega) found

end Result

end NpuPlugin.BarrierInfo
