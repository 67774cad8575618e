/-
This file proves what the third step of a split leaves after all barriers, and what the steps after
it do to barriers without consumers and to unused wait barriers of sync tasks.
-/

import Mathlib.Data.Nat.Count
import NpuPlugin.BarrierInfo.SplitRedirect

namespace NpuPlugin.BarrierInfo

open Function IncidenceTable List Nat SmallSet

variable {Queue : Type} {info : BarrierInfo Queue} {blockSize : Nat}

/-! ### One barrier -/

/-- A barrier that the split accepts: it has producers and consumers, and if it is between blocks,
it has a producer in the first of them. -/
structure Splittable (info : BarrierInfo Queue) (blockSize barrier : Nat) : Prop where
  produced : ∃ producer, info.updates.Linked barrier producer
  consumed : ∃ consumer, info.waits.Linked barrier consumer
  homeProduced : info.Crossing blockSize barrier → info.HomeProduced blockSize barrier

theorem not_crossing_iff {barrier : Nat} : ¬ info.Crossing blockSize barrier ↔
    ∀ task other, info.Touches barrier task → info.Touches barrier other →
      task / blockSize = other / blockSize := by
  unfold Crossing
  push Not
  exact Iff.rfl

theorem Located.home_lt {barrier home last : Nat}
    {barProdBlockTasksMap barConsBlockTasksMap : Std.TreeMap Nat TaskSet}
    {producers consumers : List Nat} (located : info.Located blockSize barrier home last
      barProdBlockTasksMap barConsBlockTasksMap producers consumers)
    (crossing : info.Crossing blockSize barrier)
    (tasksInside : ∀ task, info.Touches barrier task → task < info.getNumOfTasks) :
    home < info.lastBlock blockSize := by
  obtain ⟨task, other, touches, otherTouches, different⟩ := crossing
  have least := located.home_le touches
  have otherLeast := located.home_le otherTouches
  have bound := div_le_lastBlock blockSize (tasksInside task touches)
  have otherBound := div_le_lastBlock blockSize (tasksInside other otherTouches)
  refine lt_of_not_ge fun none => different ?_
  exact ((bound.trans none).antisymm least).trans ((otherBound.trans none).antisymm otherLeast).symm

section Barrier

variable {state : SplitState Queue} {barrier : Nat}
  (updatesSame : ∀ task, state.info.updates.Linked barrier task ↔ info.updates.Linked barrier task)
  (waitsSame : ∀ task, state.info.waits.Linked barrier task ↔ info.waits.Linked barrier task)

include updatesSame waitsSame

theorem crossing_iff : info.Crossing blockSize barrier ↔
    ¬ (SmallSet.ofList (((state.info.getBarrierProducers barrier).elements ++
      (state.info.getBarrierConsumers barrier).elements).map fun taskInd => taskInd / blockSize) :
        TaskSet).elements.length < 2 := by
  have mem : ∀ task, task ∈ (state.info.getBarrierProducers barrier).elements ++
      (state.info.getBarrierConsumers barrier).elements ↔ info.Touches barrier task := by
    intro task
    rw [mem_append]
    exact or_congr (updatesSame task) (waitsSame task)
  rw [length_lt_two_iff, ← not_iff_not, not_not, not_crossing_iff]
  constructor
  · intro same first firstMember second secondMember
    rw [mem_ofList, mem_map] at firstMember secondMember
    obtain ⟨task, member, rfl⟩ := firstMember
    obtain ⟨other, otherMember, rfl⟩ := secondMember
    exact same task other ((mem task).mp member) ((mem other).mp otherMember)
  · intro same task other touches otherTouches
    exact same _ (mem_ofList.mpr (mem_map_of_mem ((mem task).mpr touches))) _
      (mem_ofList.mpr (mem_map_of_mem ((mem other).mpr otherTouches)))

theorem located_of_state (blockSize : Nat)
    (produced : ∃ producer, info.updates.Linked barrier producer)
    (consumed : ∃ consumer, info.waits.Linked barrier consumer) :
    info.Located blockSize barrier
      (min ((groupByBlock blockSize (state.info.getBarrierProducers barrier)).toList.headD (0, ∅)).1
        ((groupByBlock blockSize (state.info.getBarrierConsumers barrier)).toList.headD (0, ∅)).1)
      ((groupByBlock blockSize (state.info.getBarrierProducers barrier)).toList.getLastD (0, ∅)).1
      (groupByBlock blockSize (state.info.getBarrierProducers barrier))
      (groupByBlock blockSize (state.info.getBarrierConsumers barrier))
      (state.info.getBarrierProducers barrier).elements
      (state.info.getBarrierConsumers barrier).elements := by
  have producers := groupByBlock_spec blockSize (state.info.getBarrierProducers barrier)
  have consumers := groupByBlock_spec blockSize (state.info.getBarrierConsumers barrier)
  have memProducers : ∀ task, task ∈ (state.info.getBarrierProducers barrier).elements ↔
      info.updates.Linked barrier task := updatesSame
  have memConsumers : ∀ task, task ∈ (state.info.getBarrierConsumers barrier).elements ↔
      info.waits.Linked barrier task := waitsSame
  obtain ⟨⟨firstProducer, firstProduced, firstOwn⟩, firstLeast⟩ :=
    producers.headD_spec (produced.imp fun task => (memProducers task).mpr)
  obtain ⟨⟨firstConsumer, firstConsumed, consumerOwn⟩, consumerLeast⟩ :=
    consumers.headD_spec (consumed.imp fun task => (memConsumers task).mpr)
  obtain ⟨⟨lastProducer, lastProduced, lastOwn⟩, lastGreatest⟩ :=
    producers.getLastD_spec (produced.imp fun task => (memProducers task).mpr)
  refine ⟨producers, consumers, memProducers, memConsumers, fun task => ?_, ?_, fun task => ?_,
    lastProducer, (memProducers _).mp lastProduced, lastOwn⟩
  · constructor
    · intro inHome
      refine le_min ?_ ?_
      · rw [← firstOwn]
        exact inHome _ (.inl ((memProducers _).mp firstProduced))
      · rw [← consumerOwn]
        exact inHome _ (.inr ((memConsumers _).mp firstConsumed))
    · rintro bound other (linked | linked)
      · exact bound.trans ((min_le_left _ _).trans (firstLeast other ((memProducers _).mpr linked)))
      · exact bound.trans
          ((min_le_right _ _).trans (consumerLeast other ((memConsumers _).mpr linked)))
  · rcases min_choice
      ((groupByBlock blockSize (state.info.getBarrierProducers barrier)).toList.headD (0, ∅)).1
      ((groupByBlock blockSize (state.info.getBarrierConsumers barrier)).toList.headD (0, ∅)).1
      with least | least
    · rw [least]
      exact ⟨firstProducer, .inl ((memProducers _).mp firstProduced), firstOwn⟩
    · rw [least]
      exact ⟨firstConsumer, .inr ((memConsumers _).mp firstConsumed), consumerOwn⟩
  · constructor
    · intro inLast
      rw [← lastOwn]
      exact inLast _ ((memProducers _).mp lastProduced)
    · exact fun bound other linked => (lastGreatest other ((memProducers _).mpr linked)).trans bound

theorem splitBarrier_spec (pos : 0 < blockSize) (splitting : Splitting info blockSize state)
    (inside : barrier < info.getNumOfVirtualBarriers) :
    (¬ info.Splittable blockSize barrier ∧ ∃ failure,
      splitBarrier blockSize (info.lastBlock blockSize + 1) info.getNumOfTasks state barrier =
        .error failure) ∨
    info.Splittable blockSize barrier ∧ ∃ after,
      splitBarrier blockSize (info.lastBlock blockSize + 1) info.getNumOfTasks state barrier =
        .ok (after, false) ∧
      (¬ info.Crossing blockSize barrier ∧ after = state ∨ info.Crossing blockSize barrier ∧
        ∃ stays fresh, Redirected info blockSize barrier state after stays fresh) := by
  unfold splitBarrier
  dsimp only
  split
  · next empty =>
    refine .inl ⟨fun splittable => ?_, _, rfl⟩
    obtain ⟨producer, linked⟩ := splittable.produced
    exact isEmpty_iff.mp empty producer ((updatesSame producer).mpr linked)
  · next filled =>
    rw [Bool.not_eq_true, SmallSet.isEmpty_eq_false_iff] at filled
    have produced := filled.imp fun task => (updatesSame task).mp
    split
    · next empty =>
      refine .inl ⟨fun splittable => ?_, _, rfl⟩
      obtain ⟨consumer, linked⟩ := splittable.consumed
      exact isEmpty_iff.mp empty consumer ((waitsSame consumer).mpr linked)
    · next filled =>
      rw [Bool.not_eq_true, SmallSet.isEmpty_eq_false_iff] at filled
      have consumed := filled.imp fun task => (waitsSame task).mp
      by_cases crossing : info.Crossing blockSize barrier
      · rw [if_neg ((crossing_iff updatesSame waitsSame).mp crossing)]
        have located := located_of_state updatesSame waitsSame blockSize produced consumed
        have tasksInside : ∀ task, info.Touches barrier task → task < info.getNumOfTasks := by
          rintro task (linked | linked)
          · rw [← splitting.tasks]
            exact splitting.valid.task_lt .update ((updatesSame task).mpr linked)
          · rw [← splitting.tasks]
            exact splitting.valid.task_lt .wait ((waitsSame task).mpr linked)
        have before := located.home_lt crossing tasksInside
        rw [if_neg (by omega)]
        rcases redirectBarrier_spec pos splitting located inside before tasksInside with
          ⟨none, failed⟩ | ⟨homeProduced, stays, fresh, after, res, redirected⟩
        · refine .inl ⟨fun splittable => none (splittable.homeProduced crossing), .undefined, ?_⟩
          rw [failed]
          rfl
        · refine .inr ⟨⟨produced, consumed, fun _ => homeProduced⟩, after, ?_,
            .inr ⟨crossing, stays, fresh, redirected⟩⟩
          rw [res]
          rfl
      · rw [if_pos (not_not.mp (mt (crossing_iff updatesSame waitsSame).mpr crossing))]
        exact .inr ⟨⟨produced, consumed, fun between => absurd between crossing⟩, state, rfl,
          .inl ⟨crossing, rfl⟩⟩

end Barrier

/-! ### Some of the barriers -/

open Classical in
/-- The index of the new barrier of a barrier, if it needs one: the new barriers are behind the
ones of the sync tasks, in the order of the barriers that need them. -/
noncomputable def newBarrierIndex (info : BarrierInfo Queue) (blockSize barrier : Nat) : Nat :=
  info.getNumOfVirtualBarriers + 2 * info.lastBlock blockSize +
    Nat.count (info.NeedsNew blockSize) barrier

theorem le_newBarrierIndex (info : BarrierInfo Queue) (blockSize barrier : Nat) :
    info.getNumOfVirtualBarriers + 2 * info.lastBlock blockSize ≤
      info.newBarrierIndex blockSize barrier :=
  le_add_right _ _

variable {barrier task later other : Nat}

theorem newBarrierIndex_succ {fresh : Nat} (count : info.NeedsNew blockSize barrier ∧ fresh = 1 ∨
      ¬ info.NeedsNew blockSize barrier ∧ fresh = 0) :
    info.newBarrierIndex blockSize (barrier + 1) =
      info.newBarrierIndex blockSize barrier + fresh := by
  unfold newBarrierIndex
  rw [count_succ]
  rcases count with ⟨needs, rfl⟩ | ⟨needsNot, rfl⟩
  · rw [if_pos needs, ← add_assoc]
  · rw [if_neg needsNot, add_zero, add_zero]

theorem newBarrierIndex_inj {first second : Nat} (firstNeeds : info.NeedsNew blockSize first)
    (secondNeeds : info.NeedsNew blockSize second)
    (equal : info.newBarrierIndex blockSize first = info.newBarrierIndex blockSize second) :
    first = second := by
  classical
  exact count_injective firstNeeds secondNeeds (add_left_cancel equal)

theorem Moved.crossing (moved : info.Moved blockSize barrier task) :
    info.Crossing blockSize barrier := by
  obtain ⟨linked, outside⟩ := moved
  unfold InHome at outside
  push Not at outside
  obtain ⟨other, touches, earlier⟩ := outside
  exact ⟨task, other, .inl linked, touches, earlier.ne'⟩

/-- The state after the third step for the first barriers. -/
structure Redirecting (info : BarrierInfo Queue) (blockSize : Nat) (base : SplitState Queue)
    (stays : Nat → Prop) (count : Nat) (state : SplitState Queue) : Prop where
  splitting : Splitting info blockSize state
  barriers : state.info.getNumOfVirtualBarriers = info.newBarrierIndex blockSize count
  splittable : ∀ barrier < count, info.Splittable blockSize barrier
  kept : ∀ barrier < count, info.Crossing blockSize barrier → stays barrier →
    ∀ task, info.HomeSync blockSize barrier task → info.updates.Linked barrier task
  left : ∀ barrier < count, info.Crossing blockSize barrier → ¬ stays barrier →
    ∃ producer, info.updates.Linked barrier producer ∧ info.InHome blockSize barrier producer ∧
      ¬ info.HomeSync blockSize barrier producer
  updates : ∀ other task, state.info.updates.Linked other task ↔
    base.info.updates.Linked other task ∧ ¬ (other < count ∧ info.Crossing blockSize other ∧
      info.Unproduced blockSize (stays other) other task) ∨
    ∃ barrier < count, info.Crossing blockSize barrier ∧
      info.Produced blockSize barrier (info.newBarrierIndex blockSize barrier) other task
  waits : ∀ other task, state.info.waits.Linked other task ↔
    base.info.waits.Linked other task ∧ ¬ (other < count ∧ info.Crossing blockSize other ∧
      info.Unconsumed blockSize other task) ∨
    ∃ barrier < count, info.Crossing blockSize barrier ∧
      info.Consumed blockSize (stays barrier) barrier (info.newBarrierIndex blockSize barrier)
        other task

/-- No barrier before another one changes the links of the later one. -/
theorem Produced.ne_later
    (produced : info.Produced blockSize barrier (info.newBarrierIndex blockSize barrier) other task)
    (less : barrier < later) (inside : later < info.getNumOfVirtualBarriers) : other ≠ later := by
  rintro rfl
  rcases produced with ⟨idx, _⟩ | ⟨idx, _⟩
  · unfold waitOf at idx
    split at idx <;> omega
  · have bound := le_newBarrierIndex info blockSize barrier
    omega

theorem Consumed.ne_later {stays : Prop}
    (consumed : info.Consumed blockSize stays barrier (info.newBarrierIndex blockSize barrier)
      other task) (less : barrier < later) (inside : later < info.getNumOfVirtualBarriers) :
    other ≠ later := by
  rintro rfl
  rcases consumed with ⟨idx, _⟩ | ⟨idx, _⟩ | ⟨idx, _⟩
  · omega
  · omega
  · have bound := le_newBarrierIndex info blockSize barrier
    omega

section Loop

variable {base state : SplitState Queue} {stays : Nat → Prop} {count : Nat}

section

variable (redirecting : Redirecting info blockSize base stays count state)
include redirecting

theorem Redirecting.updates_later (baseUpdates : ∀ barrier < info.getNumOfVirtualBarriers, ∀ task,
      base.info.updates.Linked barrier task ↔ info.updates.Linked barrier task)
    (inside : count < info.getNumOfVirtualBarriers) (task : Nat) :
    state.info.updates.Linked count task ↔ info.updates.Linked count task := by
  rw [redirecting.updates, ← baseUpdates count inside]
  simp only [lt_irrefl, false_and, not_false_eq_true, and_true]
  refine or_iff_left ?_
  rintro ⟨barrier, less, _, produced⟩
  exact produced.ne_later less inside rfl

theorem Redirecting.waits_later (baseWaits : ∀ barrier < info.getNumOfVirtualBarriers, ∀ task,
      base.info.waits.Linked barrier task ↔ info.waits.Linked barrier task)
    (inside : count < info.getNumOfVirtualBarriers) (task : Nat) :
    state.info.waits.Linked count task ↔ info.waits.Linked count task := by
  rw [redirecting.waits, ← baseWaits count inside]
  simp only [lt_irrefl, false_and, not_false_eq_true, and_true]
  refine or_iff_left ?_
  rintro ⟨barrier, less, _, consumed⟩
  exact consumed.ne_later less inside rfl

theorem Redirecting.congr {stays' : Nat → Prop}
    (same : ∀ barrier < count, stays' barrier = stays barrier) :
    Redirecting info blockSize base stays' count state := by
  refine ⟨redirecting.splitting, redirecting.barriers, redirecting.splittable, ?_, ?_,
    fun other task => ?_, fun other task => ?_⟩
  · intro barrier less
    rw [same barrier less]
    exact redirecting.kept barrier less
  · intro barrier less
    rw [same barrier less]
    exact redirecting.left barrier less
  · rw [redirecting.updates]
    refine or_congr_left (and_congr_right fun _ => not_congr (and_congr_right fun less => ?_))
    rw [same other less]
  · rw [redirecting.waits]
    refine or_congr_right (exists_congr fun barrier => and_congr_right fun less => ?_)
    rw [same barrier less]

theorem Redirecting.redirect (inside : count < info.getNumOfVirtualBarriers)
    (splittable : info.Splittable blockSize count) (crossing : info.Crossing blockSize count)
    {after : SplitState Queue} {fresh : Nat}
    (redirected : Redirected info blockSize count state after (stays count) fresh) :
    Redirecting info blockSize base stays (count + 1) after := by
  have changes := redirected.changes
  rw [redirecting.barriers] at changes
  refine ⟨changes.splitting, ?_, ?_, ?_, ?_, fun other task => ?_, fun other task => ?_⟩
  · rw [newBarrierIndex_succ redirected.count, changes.barriers, redirecting.barriers]
  · exact Nat.forall_lt_succ_right.mpr ⟨redirecting.splittable, splittable⟩
  · exact Nat.forall_lt_succ_right.mpr ⟨redirecting.kept, fun _ => redirected.kept⟩
  · exact Nat.forall_lt_succ_right.mpr ⟨redirecting.left, fun _ => redirected.left⟩
  · rw [changes.updates, redirecting.updates, Nat.exists_lt_succ_right, Nat.lt_succ_iff_lt_or_eq]
    have apart : (∃ barrier < count, info.Crossing blockSize barrier ∧
        info.Produced blockSize barrier (info.newBarrierIndex blockSize barrier) other task) →
          other ≠ count := by
      rintro ⟨barrier, less, _, produced⟩
      exact produced.ne_later less inside
    by_cases same : other = count
    · rw [same] at apart ⊢
      simp only [Nat.lt_irrefl, false_and, not_false_eq_true, and_true, false_or, true_and,
        crossing, iff_false_intro fun produced => apart produced rfl, or_false]
    · simp only [same, false_and, not_false_eq_true, and_true, or_false, crossing, true_and,
        or_assoc]
  · rw [changes.waits, redirecting.waits, Nat.exists_lt_succ_right, Nat.lt_succ_iff_lt_or_eq]
    have apart : (∃ barrier < count, info.Crossing blockSize barrier ∧
        info.Consumed blockSize (stays barrier) barrier (info.newBarrierIndex blockSize barrier)
          other task) → other ≠ count := by
      rintro ⟨barrier, less, _, consumed⟩
      exact consumed.ne_later less inside
    by_cases same : other = count
    · rw [same] at apart ⊢
      simp only [Nat.lt_irrefl, false_and, not_false_eq_true, and_true, false_or, true_and,
        crossing, iff_false_intro fun consumed => apart consumed rfl, or_false]
    · simp only [same, false_and, not_false_eq_true, and_true, or_false, crossing, true_and,
        or_assoc]

theorem Redirecting.skip (splittable : info.Splittable blockSize count)
    (inner : ¬ info.Crossing blockSize count) :
    Redirecting info blockSize base stays (count + 1) state := by
  have needsNot : ¬ info.NeedsNew blockSize count :=
    fun ⟨_, toNew⟩ => inner (Moved.crossing toNew.1)
  refine ⟨redirecting.splitting, ?_, ?_, ?_, ?_, fun other task => ?_, fun other task => ?_⟩
  · rw [newBarrierIndex_succ (.inr ⟨needsNot, rfl⟩), redirecting.barriers, Nat.add_zero]
  · exact Nat.forall_lt_succ_right.mpr ⟨redirecting.splittable, splittable⟩
  · exact Nat.forall_lt_succ_right.mpr ⟨redirecting.kept, fun crossing => absurd crossing inner⟩
  · exact Nat.forall_lt_succ_right.mpr ⟨redirecting.left, fun crossing => absurd crossing inner⟩
  · rw [redirecting.updates, Nat.exists_lt_succ_right, Nat.lt_succ_iff_lt_or_eq]
    by_cases same : other = count
    · simp only [same, Nat.lt_irrefl, inner, false_and, and_false, or_false]
    · simp only [same, inner, false_and, or_false]
  · rw [redirecting.waits, Nat.exists_lt_succ_right, Nat.lt_succ_iff_lt_or_eq]
    by_cases same : other = count
    · simp only [same, Nat.lt_irrefl, inner, false_and, and_false, or_false]
    · simp only [same, inner, false_and, or_false]

end

theorem Redirecting.step (pos : 0 < blockSize)
    (redirecting : Redirecting info blockSize base stays count state)
    (baseUpdates : ∀ barrier < info.getNumOfVirtualBarriers, ∀ task,
      base.info.updates.Linked barrier task ↔ info.updates.Linked barrier task)
    (baseWaits : ∀ barrier < info.getNumOfVirtualBarriers, ∀ task,
      base.info.waits.Linked barrier task ↔ info.waits.Linked barrier task)
    (inside : count < info.getNumOfVirtualBarriers) :
    (¬ info.Splittable blockSize count ∧ ∃ failure,
      splitBarrier blockSize (info.lastBlock blockSize + 1) info.getNumOfTasks state count =
        .error failure) ∨
    ∃ after stays', splitBarrier blockSize (info.lastBlock blockSize + 1) info.getNumOfTasks state
        count = .ok (after, false) ∧ Redirecting info blockSize base stays' (count + 1) after := by
  rcases splitBarrier_spec (redirecting.updates_later baseUpdates inside)
    (redirecting.waits_later baseWaits inside) pos redirecting.splitting inside with
    refused | ⟨splittable, after, res, outcome⟩
  · exact .inl refused
  · rcases outcome with ⟨inner, rfl⟩ | ⟨crossing, staysHere, fresh, redirected⟩
    · exact .inr ⟨_, stays, res, redirecting.skip splittable inner⟩
    · have here : Redirected info blockSize count state after
          (update stays count staysHere count) fresh := by
        rw [update_self]
        exact redirected
      refine .inr ⟨after, update stays count staysHere, res,
        (redirecting.congr fun barrier less => ?_).redirect inside splittable crossing here⟩
      exact update_of_ne less.ne _ _

theorem splitBarriers_spec (pos : 0 < blockSize)
    (baseUpdates : ∀ barrier < info.getNumOfVirtualBarriers, ∀ task,
      base.info.updates.Linked barrier task ↔ info.updates.Linked barrier task)
    (baseWaits : ∀ barrier < info.getNumOfVirtualBarriers, ∀ task,
      base.info.waits.Linked barrier task ↔ info.waits.Linked barrier task)
    (rest : Nat) (state : SplitState Queue) (stays : Nat → Prop) (count : Nat)
    (total : count + rest = info.getNumOfVirtualBarriers)
    (redirecting : Redirecting info blockSize base stays count state) :
    ((∃ barrier < info.getNumOfVirtualBarriers, ¬ info.Splittable blockSize barrier) ∧ ∃ failure,
      splitBarriers blockSize (info.lastBlock blockSize + 1) info.getNumOfTasks
        (List.range' count rest) state = .error failure) ∨
    ∃ after stays', splitBarriers blockSize (info.lastBlock blockSize + 1) info.getNumOfTasks
        (List.range' count rest) state = .ok after ∧
      Redirecting info blockSize base stays' info.getNumOfVirtualBarriers after := by
  induction rest generalizing state stays count with
  | zero =>
    refine .inr ⟨state, stays, rfl, ?_⟩
    rw [← total]
    exact redirecting
  | succ rest ih =>
    have inside : count < info.getNumOfVirtualBarriers := by omega
    rw [range'_succ]
    unfold splitBarriers
    rcases redirecting.step pos baseUpdates baseWaits inside with
      ⟨refused, failure, failed⟩ | ⟨after, stays', res, stepped⟩
    · refine .inl ⟨⟨count, inside, refused⟩, failure, ?_⟩
      rw [failed]
      rfl
    · rw [res]
      exact ih after stays' (count + 1) (by omega) stepped

end Loop

/-! ### Step 4 -/

theorem linkSyncTasks_adds (pos : 0 < blockSize) {state : SplitState Queue}
    (splitting : Splitting info blockSize state) :
    Adds info blockSize state
      ((List.range' 2 (info.lastBlock blockSize + 1 - 2)).foldl (linkSyncTasks blockSize) state)
      (fun _ _ => False) fun other task => ∃ block, block + 1 < info.lastBlock blockSize ∧
        other = info.getNumOfVirtualBarriers + 2 * block + 1 ∧
          task = syncTask blockSize (block + 1) := by
  have each : ∀ blockInd ∈ List.range' 2 (info.lastBlock blockSize + 1 - 2), ∀ state,
      Splitting info blockSize state →
        Adds info blockSize state (linkSyncTasks blockSize state blockInd) (fun _ _ => False)
          fun other task => other = info.getNumOfVirtualBarriers + 2 * (blockInd - 2) + 1 ∧
            task = syncTask blockSize (blockInd - 1) := by
    intro blockInd mem state splitting
    rw [mem_range'_1] at mem
    have before : blockInd - 2 < info.lastBlock blockSize := by omega
    have next : blockInd - 1 < info.lastBlock blockSize := by omega
    unfold linkSyncTasks
    rw [syncTask_previous (by omega : 0 < blockInd - 1), syncTask_previous
      (by omega : 0 < blockInd),
      show blockInd - 1 - 1 = blockInd - 2 by omega]
    have entered := splitting.enter (syncTask blockSize (blockInd - 2))
    refine ((addConsumer_adds entered (entered.updateBarInd_lt before) ?_).of_enter).congr
      (fun _ _ => Iff.rfl) fun other task => ?_
    · exact (Nat.lt_succ_self _).trans (syncTask_succ_lt pos next)
    · rw [entered.update _ before]
  refine (Adds.foldl _ _ each state splitting).congr (by simp) fun other task => ?_
  constructor
  · rintro ⟨blockInd, mem, rfl, rfl⟩
    rw [mem_range'_1] at mem
    exact ⟨blockInd - 2, by omega, rfl, by rw [show blockInd - 2 + 1 = blockInd - 1 by omega]⟩
  · rintro ⟨block, before, rfl, rfl⟩
    exact ⟨block + 2, mem_range'_1.mpr (by omega), rfl, rfl⟩

/-! ### Step 5 -/

section CheckBarrier

variable {state : SplitState Queue}

theorem linkToSyncTask_adds (pos : 0 < blockSize) (blocks : 0 < info.lastBlock blockSize)
    (splitting : Splitting info blockSize state) {taskInd : Nat}
    (inside : taskInd < info.getNumOfTasks) :
    Adds info blockSize state (linkToSyncTask blockSize info.getNumOfTasks state taskInd)
      (fun other task => task = taskInd ∧ other = info.waitOf blockSize (task / blockSize) ∧
        task ≠ syncTask blockSize (task / blockSize) ∧
          syncTask blockSize (task / blockSize) < info.getNumOfTasks) fun _ _ => False := by
  unfold linkToSyncTask
  rw [syncTask_eq]
  by_cases outside : info.getNumOfTasks ≤ syncTask blockSize (taskInd / blockSize)
  · rw [if_pos outside]
    refine Adds.refl splitting ?_ (by simp)
    rintro other _ ⟨rfl, _, _, bounded⟩
    omega
  · rw [if_neg outside]
    by_cases itself : taskInd = syncTask blockSize (taskInd / blockSize)
    · rw [if_neg (not_not.mpr itself)]
      refine Adds.refl splitting ?_ (by simp)
      rintro other _ ⟨rfl, _, different, _⟩
      exact different itself
    · rw [if_pos itself]
      have entered := splitting.enter (syncTask blockSize (taskInd / blockSize))
      refine ((addProducer_adds entered (entered.waitBarInd_lt blocks _) inside).of_enter).congr
        (fun other task => ?_) fun _ _ => Iff.rfl
      rw [entered.waitBarInd_eq pos, and_comm]
      refine and_congr_right ?_
      rintro rfl
      exact (and_iff_left ⟨itself, not_le.mp outside⟩).symm

theorem linked_resetBarrier (side : Side) {barrier other task : Nat} :
    ((info.resetBarrier barrier).table side).Linked other task ↔
      (info.table side).Linked other task ∧ other ≠ barrier := by
  cases side
  · exact linked_clearRow
  · exact linked_clearRow

theorem resetBarrier_changes (splitting : Splitting info blockSize state) (barrier : Nat) :
    Changes info blockSize state { state with info := state.info.resetBarrier barrier } 0
      (fun other _ => other = barrier) (fun _ _ => False)
      (fun other _ => other = barrier) fun _ _ => False := by
  have rows : (state.info.resetBarrier barrier).getNumOfVirtualBarriers =
      state.info.getNumOfVirtualBarriers := length_rows_clearRow
  refine ⟨splitting.change splitting.valid.resetBarrier rfl rfl rfl rows.ge, rows,
    fun other task => ?_, fun other task => ?_⟩
  · rw [or_false]
    exact linked_resetBarrier .update
  · rw [or_false]
    exact linked_resetBarrier .wait

theorem checkBarrier_spec (pos : 0 < blockSize) (blocks : 0 < info.lastBlock blockSize)
    (splitting : Splitting info blockSize state) {barrier : Nat}
    (produced : ∃ producer, state.info.updates.Linked barrier producer) :
    ∃ after, checkBarrier blockSize info.getNumOfTasks state barrier = .ok after ∧
      Splitting info blockSize after ∧
      after.info.getNumOfVirtualBarriers = state.info.getNumOfVirtualBarriers ∧
      (∀ other task, after.info.updates.Linked other task ↔ (state.info.updates.Linked other task ∨
          (∀ consumer, ¬ state.info.waits.Linked barrier consumer) ∧
            state.info.updates.Linked barrier task ∧
            other = info.waitOf blockSize (task / blockSize) ∧
            task ≠ syncTask blockSize (task / blockSize) ∧
            syncTask blockSize (task / blockSize) < info.getNumOfTasks) ∧
        ¬ (other = barrier ∧ ∀ consumer, ¬ state.info.waits.Linked barrier consumer)) ∧
      ∀ other task, after.info.waits.Linked other task ↔ state.info.waits.Linked other task := by
  have filled : (state.info.getBarrierProducers barrier).isEmpty = false :=
    SmallSet.isEmpty_eq_false_iff.mpr produced
  unfold checkBarrier
  dsimp only
  rw [filled]
  by_cases none : ∀ consumer, ¬ state.info.waits.Linked barrier consumer
  · have empty : (state.info.getBarrierConsumers barrier).isEmpty = true :=
      SmallSet.isEmpty_iff.mpr none
    rw [empty]
    simp only [Bool.not_false, Bool.and_true, if_true]
    have links := Adds.foldl (linkToSyncTask blockSize info.getNumOfTasks)
      (state.info.getBarrierProducers barrier).elements (fun task mem _ splitting' =>
        linkToSyncTask_adds pos blocks splitting'
          (splitting.tasks ▸ splitting.valid.task_lt .update mem)) state splitting
    have reset := resetBarrier_changes links.splitting barrier
    rw [if_neg]
    · refine ⟨_, rfl, reset.splitting, reset.barriers.trans links.barriers, fun other task => ?_,
        fun other task => ?_⟩
      · rw [reset.updates, or_false, links.updates, and_iff_left none]
        refine and_congr_left fun _ => or_congr_right ?_
        constructor
        · rintro ⟨item, mem, rfl, conditions⟩
          exact ⟨none, mem, conditions⟩
        · rintro ⟨_, mem, conditions⟩
          exact ⟨task, mem, rfl, conditions⟩
      · rw [reset.waits, or_false, links.waits]
        simp only [and_false, exists_false, or_false]
        refine and_iff_left_of_imp ?_
        rintro linked rfl
        exact none task linked
    · rw [Bool.and_eq_true, Bool.not_eq_true', not_and, Bool.not_eq_false]
      intro _
      refine SmallSet.isEmpty_iff.mpr fun task mem => ?_
      exact ((linked_resetBarrier .wait).mp mem).2 rfl
  · have empty : (state.info.getBarrierConsumers barrier).isEmpty = false := by
      rw [← Bool.not_eq_true, SmallSet.isEmpty_iff]
      exact none
    rw [empty]
    simp only [Bool.false_and, Bool.false_eq_true, if_false, filled]
    refine ⟨state, rfl, splitting, rfl, fun other task => ?_, fun other task => Iff.rfl⟩
    simp [none]

end CheckBarrier

def Unused (info : BarrierInfo Queue) (barrier : Nat) : Prop :=
  ∀ consumer, ¬ info.waits.Linked barrier consumer

/-- A producer of an unused barrier that is linked to the sync task of its block. -/
def HandedOver (info : BarrierInfo Queue) (blockSize last barrier task : Nat) : Prop :=
  info.Unused barrier ∧ info.updates.Linked barrier task ∧ task / blockSize < last ∧
    task ≠ syncTask blockSize (task / blockSize)

/-- The state after the fifth step for the first barriers. -/
structure Sanitizing (info : BarrierInfo Queue) (blockSize : Nat) (start : SplitState Queue)
    (count : Nat) (state : SplitState Queue) : Prop where
  splitting : Splitting info blockSize state
  barriers : state.info.getNumOfVirtualBarriers = start.info.getNumOfVirtualBarriers
  updates : ∀ other task, state.info.updates.Linked other task ↔
    start.info.updates.Linked other task ∧ ¬ (other < count ∧ start.info.Unused other) ∨
    ∃ barrier < count,
      start.info.HandedOver blockSize (info.lastBlock blockSize) barrier task ∧
        other = info.getNumOfVirtualBarriers + 2 * (task / blockSize)
  waits : ∀ other task, state.info.waits.Linked other task ↔ start.info.waits.Linked other task

section Sanitizing

variable {start state : SplitState Queue} {count : Nat}

theorem Sanitizing.step (pos : 0 < blockSize) (blocks : 0 < info.lastBlock blockSize)
    (sanitizing : Sanitizing info blockSize start count state)
    (inside : count < info.getNumOfVirtualBarriers)
    (produced : ∃ producer, start.info.updates.Linked count producer)
    (early : 0 < count → start.info.Unused count → ∀ task,
      start.info.updates.Linked count task → task / blockSize < info.lastBlock blockSize) :
    ∃ after, checkBarrier blockSize info.getNumOfTasks state count = .ok after ∧
      Sanitizing info blockSize start (count + 1) after := by
  have row : ∀ task, state.info.updates.Linked count task ↔
      start.info.updates.Linked count task := by
    intro task
    rw [sanitizing.updates]
    simp only [Nat.lt_irrefl, false_and, not_false_eq_true, and_true]
    refine or_iff_left ?_
    rintro ⟨barrier, _, _, idx⟩
    omega
  obtain ⟨after, res, splitting, barriers, updates, waits⟩ := checkBarrier_spec pos blocks
    sanitizing.splitting (produced.imp fun task => (row task).mpr)
  refine ⟨after, res, splitting, barriers.trans sanitizing.barriers, fun other task => ?_,
    fun other task => (waits other task).trans (sanitizing.waits other task)⟩
  have unused : (∀ consumer, ¬ state.info.waits.Linked count consumer) ↔
      start.info.Unused count := forall_congr' fun consumer => not_congr (sanitizing.waits _ _)
  rw [updates, unused, row, sanitizing.updates, Nat.exists_lt_succ_right, Nat.lt_succ_iff_lt_or_eq]
  -- Where a producer of this barrier goes.
  have target : other ≠ count → (start.info.Unused count ∧ start.info.updates.Linked count task ∧
      other = info.waitOf blockSize (task / blockSize) ∧
      task ≠ syncTask blockSize (task / blockSize) ∧
      syncTask blockSize (task / blockSize) < info.getNumOfTasks ↔
      start.info.HandedOver blockSize (info.lastBlock blockSize) count task ∧
        other = info.getNumOfVirtualBarriers + 2 * (task / blockSize)) := by
    intro different
    constructor
    · rintro ⟨none, linked, rfl, itself, _⟩
      have before : task / blockSize < info.lastBlock blockSize := by
        by_contra final
        unfold waitOf at different
        rw [if_neg final] at different
        exact final (early (Nat.pos_of_ne_zero different.symm) none task linked)
      refine ⟨⟨none, linked, before, itself⟩, ?_⟩
      unfold waitOf
      rw [if_pos before]
    · rintro ⟨⟨none, linked, before, itself⟩, rfl⟩
      refine ⟨none, linked, ?_, itself, (Nat.lt_succ_self _).trans (syncTask_succ_lt pos before)⟩
      unfold waitOf
      rw [if_pos before]
  by_cases same : other = count
  · -- The row of the barrier itself: no new link is in it.
    have noLink : ∀ barrier, ¬ (start.info.HandedOver blockSize (info.lastBlock blockSize) barrier
        task ∧ other = info.getNumOfVirtualBarriers + 2 * (task / blockSize)) := by
      rintro barrier ⟨_, idx⟩
      omega
    simp only [noLink, and_false, exists_false, or_false]
    simp only [same, Nat.lt_irrefl, false_and, not_false_eq_true, and_true, false_or, true_and]
    constructor
    · rintro ⟨linked | ⟨none, _⟩, used⟩
      · exact ⟨linked, used⟩
      · exact absurd none used
    · exact fun ⟨linked, used⟩ => ⟨.inl linked, used⟩
  · rw [target same]
    simp only [same, false_and, not_false_eq_true, and_true, or_false, or_assoc]

/-- The fifth step is never refused when every barrier still has a producer. -/
theorem checkBarriers_spec (pos : 0 < blockSize) (blocks : 0 < info.lastBlock blockSize)
    (produced : ∀ barrier < info.getNumOfVirtualBarriers,
      ∃ producer, start.info.updates.Linked barrier producer)
    (early : ∀ barrier < info.getNumOfVirtualBarriers, 0 < barrier → start.info.Unused barrier →
      ∀ task, start.info.updates.Linked barrier task → task / blockSize < info.lastBlock blockSize)
    (rest : Nat) (state : SplitState Queue) (count : Nat)
    (total : count + rest = info.getNumOfVirtualBarriers)
    (sanitizing : Sanitizing info blockSize start count state) :
    ∃ after, (List.range' count rest).foldlM (checkBarrier blockSize info.getNumOfTasks) state =
        .ok after ∧
      Sanitizing info blockSize start info.getNumOfVirtualBarriers after := by
  induction rest generalizing state count with
  | zero =>
    refine ⟨state, rfl, ?_⟩
    rw [← total]
    exact sanitizing
  | succ rest ih =>
    have inside : count < info.getNumOfVirtualBarriers := by omega
    obtain ⟨next, res, stepped⟩ := sanitizing.step pos blocks inside (produced count inside)
      (early count inside)
    rw [range'_succ, foldlM_cons, res]
    exact ih next (count + 1) (by omega) stepped

end Sanitizing

/-! ### Step 6 -/

variable {barrier : Nat} (side : Side) (barriers : Nat × Nat) (other task : Nat)

theorem linked_resetBarrier_if {other task : Nat} (condition : Prop) [Decidable condition] :
    ((if condition then info.resetBarrier barrier else info).table side).Linked other task ↔
      (info.table side).Linked other task ∧ ¬ (condition ∧ other = barrier) := by
  by_cases holds : condition
  · rw [if_pos holds, linked_resetBarrier]
    simp [holds]
  · rw [if_neg holds]
    simp [holds]

theorem isEmpty_row_iff {table : IncidenceTable 16} :
    (table.row barrier).isEmpty = true ↔ ∀ node, ¬ table.Linked barrier node :=
  SmallSet.isEmpty_iff

theorem removeUnusedBarriers_linked :
    ((removeUnusedBarriers info barriers).table side).Linked other task ↔
      (info.table side).Linked other task ∧
        ¬ (other = barriers.1 ∧ ∀ node, ¬ (info.table side.opposite).Linked other node) := by
  -- The second test sees the row after the first reset.
  have second : (((if (info.getBarrierProducers barriers.1).isEmpty then
      info.resetBarrier barriers.1 else info).getBarrierConsumers barriers.1).isEmpty = true) ↔
        (∀ node, ¬ info.updates.Linked barriers.1 node) ∨
          ∀ node, ¬ info.waits.Linked barriers.1 node := by
    refine isEmpty_row_iff.trans ?_
    by_cases empty : (info.getBarrierProducers barriers.1).isEmpty = true
    · rw [if_pos empty]
      exact iff_of_true (fun node linked => ((linked_resetBarrier .wait).mp linked).2 rfl)
        (.inl (isEmpty_row_iff.mp empty))
    · rw [if_neg empty]
      exact (or_iff_right (mt isEmpty_row_iff.mpr empty)).symm
  unfold removeUnusedBarriers
  rw [linked_resetBarrier_if, linked_resetBarrier_if, second, and_assoc]
  refine and_congr_right fun linked => ?_
  rw [show (info.getBarrierProducers barriers.1).isEmpty = true ↔ _ from isEmpty_row_iff]
  -- The row of the link itself is not empty.
  by_cases same : other = barriers.1
  · rw [same] at linked ⊢
    cases side with
    | update =>
      have filled : ¬ ∀ node, ¬ info.updates.Linked barriers.1 node := fun none => none task linked
      simp only [filled, not_false_eq_true, false_or, true_and, and_true]
      exact Iff.rfl
    | wait =>
      have filled : ¬ ∀ node, ¬ info.waits.Linked barriers.1 node := fun none => none task linked
      simp only [filled, or_false, and_true, and_self, true_and]
      exact Iff.rfl
  · simp only [same, and_false, not_false_eq_true, and_self, false_and]

theorem removeUnusedBarriers_foldl_linked (pairs : List (Nat × Nat)) (other task : Nat) :
    ((pairs.foldl removeUnusedBarriers info).table side).Linked other task ↔
      (info.table side).Linked other task ∧ ¬ ((∃ pair ∈ pairs, other = pair.1) ∧
        ∀ node, ¬ (info.table side.opposite).Linked other node) := by
  induction pairs generalizing info with
  | nil => simp
  | cons head tail ih =>
    rw [foldl_cons, ih, removeUnusedBarriers_linked, and_assoc]
    refine and_congr_right fun linked => ?_
    have opposite : side.opposite.opposite = side := by cases side <;> rfl
    simp only [removeUnusedBarriers_linked, opposite, mem_cons, exists_eq_or_imp]
    -- The opposite side of the row only loses links when this side is empty.
    have same : (∀ node, ¬ ((info.table side.opposite).Linked other node ∧
        ¬ (other = head.1 ∧ ∀ node, ¬ (info.table side).Linked other node))) ↔
          ∀ node, ¬ (info.table side.opposite).Linked other node := by
      refine forall_congr' fun node => not_congr (and_iff_left ?_)
      exact fun conditions => conditions.2 task linked
    rw [same, or_and_right, not_or]

/-- What the last two steps leave as it is. -/
structure Untouched (info after : BarrierInfo Queue) : Prop where
  valid : info.Valid → after.Valid
  tasks : after.getNumOfTasks = info.getNumOfTasks
  queues : ∀ task, after.queueTypeOf task = info.queueTypeOf task
  ids : after.syncTasksIds = info.syncTasksIds

theorem Untouched.refl (info : BarrierInfo Queue) : Untouched info info :=
  ⟨id, rfl, fun _ => rfl, rfl⟩

theorem Untouched.trans {first second third : BarrierInfo Queue} (early : Untouched first second)
    (late : Untouched second third) : Untouched first third :=
  ⟨late.valid ∘ early.valid, late.tasks.trans early.tasks,
    fun task => (late.queues task).trans (early.queues task), late.ids.trans early.ids⟩

theorem Untouched.foldl {Item : Type} {step : BarrierInfo Queue → Item → BarrierInfo Queue}
    (each : ∀ info item, Untouched info (step info item)) (items : List Item)
    (info : BarrierInfo Queue) : Untouched info (items.foldl step info) := by
  induction items generalizing info with
  | nil => exact .refl info
  | cons head tail ih => exact (each info head).trans (ih _)

theorem removeUnusedBarriers_untouched (info : BarrierInfo Queue) (barriers : Nat × Nat) :
    Untouched info (removeUnusedBarriers info barriers) := by
  have reset : ∀ (info : BarrierInfo Queue) (condition : Prop) [Decidable condition] barrier,
      Untouched info (if condition then info.resetBarrier barrier else info) := by
    intro info condition _ barrier
    split
    · exact ⟨Valid.resetBarrier, rfl, fun _ => rfl, rfl⟩
    · exact .refl info
  exact (reset info _ _).trans (reset _ _ _)

theorem setSyncTask_untouched (info : BarrierInfo Queue) (blockInd : Nat) :
    Untouched info (setSyncTask blockSize info blockInd) := by
  have tasks : (setSyncTask blockSize info blockInd).getNumOfTasks = info.getNumOfTasks :=
    length_modify _ _ _
  refine ⟨fun valid => ⟨valid.mirrored, valid.barriers, fun side => ?_, valid.unsplit⟩, tasks,
    fun task => ?_, rfl⟩
  · rw [tasks]
    exact valid.tasks side
  · unfold queueTypeOf setSyncTask
    rw [getElem?_modify]
    split
    · cases info.allTaskOps[task]? <;> rfl
    · cases info.allTaskOps[task]? <;> rfl

theorem table_foldl_setSyncTask (blocks : List Nat) (info : BarrierInfo Queue) :
    (blocks.foldl (setSyncTask blockSize) info).table side = info.table side := by
  induction blocks generalizing info with
  | nil => rfl
  | cons head tail ih =>
    rw [foldl_cons, ih]
    cases side <;> rfl

end NpuPlugin.BarrierInfo
