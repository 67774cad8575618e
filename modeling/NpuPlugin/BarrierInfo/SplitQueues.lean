/-
This file proves what the second step of a split links to the sync tasks: the last task of every
queue in a block that updates nothing, and the first one that waits for nothing.
-/

import NpuPlugin.BarrierInfo.Split

namespace NpuPlugin.BarrierInfo

variable {Queue : Type} {info : BarrierInfo Queue} {blockSize : Nat}

section

variable {state : SplitState Queue} {block : Nat} (splitting : Splitting info blockSize state)
  (before : block < info.lastBlock blockSize) (entries : List (Queue × Nat))
  (inside : ∀ entry ∈ entries, entry.2 < info.getNumOfTasks)
include splitting before entries inside

theorem foldl_addProducer_adds :
    Adds info blockSize state (entries.foldl (fun state entry => { state with
        info := state.info.addProducer (state.waitBarInd (syncTask blockSize block)) entry.2
          }) state)
      (fun barrier task => ∃ entry ∈ entries,
        barrier = info.getNumOfVirtualBarriers + 2 * block ∧ task = entry.2)
      (fun _ _ => ∃ entry ∈ entries, False) := by
  refine Adds.foldl _ entries (fun entry mem state splitting => ?_) state splitting
  have adds := addProducer_adds splitting
    (splitting.waitBarInd_lt (Nat.zero_lt_of_lt before) (syncTask blockSize block))
    (inside entry mem)
  refine adds.congr (fun barrier task => ?_) fun _ _ => Iff.rfl
  rw [splitting.wait block before]

theorem foldl_addConsumer_adds :
    Adds info blockSize state (entries.foldl (fun state entry => { state with
        info := state.info.addConsumer (state.updateBarInd (syncTask blockSize block)) entry.2 })
          state)
      (fun _ _ => ∃ entry ∈ entries, False)
      (fun barrier task => ∃ entry ∈ entries,
        barrier = info.getNumOfVirtualBarriers + 2 * block + 1 ∧ task = entry.2) := by
  refine Adds.foldl _ entries (fun entry mem state splitting => ?_) state splitting
  have adds := addConsumer_adds splitting (splitting.updateBarInd_lt before) (inside entry mem)
  refine adds.congr (fun _ _ => Iff.rfl) fun barrier task => ?_
  rw [splitting.update block before]

end

/-! ### The invariants of the loop -/

variable [LinearOrder Queue]

/-- The last tasks without update barriers among the tasks before a position. -/
structure LastLinked (info : BarrierInfo Queue) (blockSize : Nat) (start : SplitState Queue)
    (position : Nat) (loop : SplitState Queue × QueueTasks Queue) : Prop where
  updates : ∀ barrier task, loop.1.info.updates.Linked barrier task ↔
    start.info.updates.Linked barrier task ∨ task / blockSize < position / blockSize ∧
      info.LastWithoutUpdate blockSize task ∧
      barrier = info.getNumOfVirtualBarriers + 2 * (task / blockSize)
  last : position / blockSize < info.lastBlock blockSize → ∀ queue task,
    loop.2.lastTaskWithNoUpdateBar[queue]? = some task ↔
      (task < position ∧ task / blockSize = position / blockSize ∧
        info.queueTypeOf task = some queue) ∧
      (∀ barrier, ¬ info.updates.Linked barrier task) ∧
      ∀ later, task < later → later < position → info.queueTypeOf later = some queue →
        ∃ barrier, info.updates.Linked barrier later

/-- The first tasks without wait barriers among the tasks before a position. -/
structure FirstLinked (info : BarrierInfo Queue) (blockSize : Nat) (start : SplitState Queue)
    (position : Nat) (loop : SplitState Queue × QueueTasks Queue) : Prop where
  waits : ∀ barrier task, loop.1.info.waits.Linked barrier task ↔
    start.info.waits.Linked barrier task ∨
      (task / blockSize < position / blockSize ∨ position = info.getNumOfTasks) ∧
      info.FirstWithoutWait blockSize task ∧
      barrier = info.getNumOfVirtualBarriers + 2 * (task / blockSize - 1) + 1
  first : position < info.getNumOfTasks → ∀ queue task,
    loop.2.firstTaskWithNoWaitBar[queue]? = some task ↔
      (0 < position / blockSize ∧ task < position ∧ task / blockSize = position / blockSize ∧
        info.queueTypeOf task = some queue) ∧
      (∀ barrier, ¬ info.waits.Linked barrier task) ∧
      ∀ earlier, earlier < task → earlier / blockSize = position / blockSize →
        info.queueTypeOf earlier = some queue → ∃ barrier, info.waits.Linked barrier earlier

/-- The loop has linked the tasks before a position. -/
structure QueuesLinked (info : BarrierInfo Queue) (blockSize : Nat) (start : SplitState Queue)
    (position : Nat) (loop : SplitState Queue × QueueTasks Queue) : Prop where
  splitting : Splitting info blockSize loop.1
  barriers : loop.1.info.getNumOfVirtualBarriers = start.info.getNumOfVirtualBarriers
  lasts : LastLinked info blockSize start position loop
  firsts : FirstLinked info blockSize start position loop

section Steps

variable {start : SplitState Queue} {position : Nat} {taskOp : TaskOp Queue}
  {loop : SplitState Queue × QueueTasks Queue}

theorem succ_div_of_ne (pos : 0 < blockSize)
    (regular : position ≠ syncTask blockSize (position / blockSize)) :
    (position + 1) / blockSize = position / blockSize := by
  have bound := le_syncTask pos position
  have succ := succ_syncTask pos (position / blockSize)
  have lower : position / blockSize * blockSize ≤ position := Nat.div_mul_le_self position blockSize
  refine Nat.div_eq_of_lt_le (by omega) ?_
  omega

theorem succ_div_of_eq (pos : 0 < blockSize)
    (sync : position = syncTask blockSize (position / blockSize)) :
    (position + 1) / blockSize = position / blockSize + 1 := by
  have succ := succ_syncTask pos (position / blockSize)
  rw [← sync] at succ
  rw [succ]
  exact Nat.mul_div_cancel _ pos

section

variable (added : SyncBarriersAdded info blockSize (info.lastBlock blockSize) start)
  (pos : 0 < blockSize) (splitting : Splitting info blockSize loop.1)
include added pos splitting

theorem LastLinked.isEmpty_iff (lasts : LastLinked info blockSize start position loop)
    (regular : position ≠ syncTask blockSize (position / blockSize)) :
    (loop.1.info.getUpdateBarriers position).isEmpty = true ↔
      ∀ barrier, ¬ info.updates.Linked barrier position := by
  rw [SmallSet.isEmpty_iff]
  refine forall_congr' fun barrier => not_congr ?_
  refine (splitting.valid.mirrored .update barrier position).trans ?_
  rw [table, lasts.updates, added.updates, or_iff_left, or_iff_left]
  · rintro ⟨block, _, _, sync⟩
    rw [sync, syncTask_div pos] at regular
    exact regular rfl
  · exact fun linked => lt_irrefl _ linked.1

theorem FirstLinked.isEmpty_iff (firsts : FirstLinked info blockSize start position loop)
    (inside : position < info.getNumOfTasks)
    (regular : position ≠ syncTask blockSize (position / blockSize)) :
    (loop.1.info.getWaitBarriers position).isEmpty = true ↔
      ∀ barrier, ¬ info.waits.Linked barrier position := by
  rw [SmallSet.isEmpty_iff]
  refine forall_congr' fun barrier => not_congr ?_
  refine (splitting.valid.mirrored .wait barrier position).trans ?_
  rw [table, firsts.waits, added.waits, or_iff_left, or_iff_left]
  · rintro ⟨block, _, _, sync⟩
    rw [sync, syncTask_div pos] at regular
    exact regular rfl
  · rintro ⟨less | equal, _⟩
    · exact lt_irrefl _ less
    · exact absurd equal inside.ne

end

theorem LastLinked.mem_iff (pos : 0 < blockSize)
    (lasts : LastLinked info blockSize start position loop)
    (before : position / blockSize < info.lastBlock blockSize)
    (sync : position = syncTask blockSize (position / blockSize)) (task : Nat) :
    (∃ entry ∈ loop.2.lastTaskWithNoUpdateBar.toList, task = entry.2) ↔
      info.LastWithoutUpdate blockSize task ∧ task / blockSize = position / blockSize := by
  have entries := fun queue other => Std.TreeMap.mem_toList_iff_getElem?_eq_some.trans
    (lasts.last before queue other)
  constructor
  · rintro ⟨⟨queue, _⟩, mem, rfl⟩
    obtain ⟨⟨less, block, own⟩, without, last⟩ := (entries queue task).mp mem
    refine ⟨⟨block ▸ before, ?_, without, ?_⟩, block⟩
    · rw [block, ← sync]
      exact less.ne
    · intro later greater bound same
      rw [block, ← sync] at bound
      exact last later greater bound (same.trans own)
  · rintro ⟨found, block⟩
    have less : task < position := by
      have bound := le_syncTask pos task
      have regular := found.regular
      rw [block, ← sync] at bound regular
      omega
    have inside : task < info.getNumOfTasks := by
      have bound := syncTask_succ_lt pos before
      omega
    have own : info.queueTypeOf task = some info.allTaskOps[task].queueType :=
      queueTypeOf_eq (List.getElem?_eq_getElem inside)
    refine ⟨(_, task), (entries _ task).mpr ⟨⟨less, block, own⟩, found.without, ?_⟩, rfl⟩
    intro later greater bound same
    refine found.last later greater ?_ (same.trans own.symm)
    rw [block, ← sync]
    exact bound

theorem FirstLinked.mem_iff (pos : 0 < blockSize)
    (firsts : FirstLinked info blockSize start position loop)
    (inside : position < info.getNumOfTasks) (block : 0 < position / blockSize)
    (flush : position = syncTask blockSize (position / blockSize) ∨
      position + 1 = info.getNumOfTasks) (task : Nat) :
    (∃ entry ∈ loop.2.firstTaskWithNoWaitBar.toList, task = entry.2) ↔
      info.FirstWithoutWait blockSize task ∧ task / blockSize = position / blockSize := by
  have entries := fun queue other => Std.TreeMap.mem_toList_iff_getElem?_eq_some.trans
    (firsts.first inside queue other)
  constructor
  · rintro ⟨⟨queue, _⟩, mem, rfl⟩
    obtain ⟨⟨_, less, same, own⟩, without, first⟩ := (entries queue task).mp mem
    have bound := le_syncTask pos position
    refine ⟨⟨same ▸ block, by omega, ?_, without, ?_⟩, same⟩
    · rw [same]
      omega
    · intro earlier lesser together queues
      exact first earlier lesser (together.trans same) (queues.trans own)
  · rintro ⟨found, same⟩
    have less : task < position := by
      have bound := le_syncTask pos task
      have regular := found.regular
      rw [same] at bound regular
      rcases flush with sync | last
      · omega
      · have early := found.inside
        omega
    have within : task < info.allTaskOps.length := less.trans inside
    have own : info.queueTypeOf task = some info.allTaskOps[task].queueType :=
      queueTypeOf_eq (List.getElem?_eq_getElem within)
    refine ⟨(_, task), (entries _ task).mpr ⟨⟨block, less, same, own⟩, found.without, ?_⟩, rfl⟩
    intro earlier lesser together queues
    exact found.first earlier lesser (together.trans same.symm) (queues.trans own.symm)

/-! ### One task of the loop -/

/-- What the map of the last tasks has for a queue in front of a position. -/
def LastAt (info : BarrierInfo Queue) (blockSize position : Nat) (queue : Queue) (task : Nat) :
    Prop :=
  (task < position ∧ task / blockSize = position / blockSize ∧
      info.queueTypeOf task = some queue) ∧
    (∀ barrier, ¬ info.updates.Linked barrier task) ∧
    ∀ later, task < later → later < position → info.queueTypeOf later = some queue →
      ∃ barrier, info.updates.Linked barrier later

/-- What the map of the first tasks has for a queue in front of a position. -/
def FirstAt (info : BarrierInfo Queue) (blockSize position : Nat) (queue : Queue) (task : Nat) :
    Prop :=
  (0 < position / blockSize ∧ task < position ∧ task / blockSize = position / blockSize ∧
      info.queueTypeOf task = some queue) ∧
    (∀ barrier, ¬ info.waits.Linked barrier task) ∧
    ∀ earlier, earlier < task → earlier / blockSize = position / blockSize →
      info.queueTypeOf earlier = some queue → ∃ barrier, info.waits.Linked barrier earlier

section

variable {queue : Queue} (next : (position + 1) / blockSize = position / blockSize)
  (own : info.queueTypeOf position = some taskOp.queueType)
include next own

theorem lastAt_succ_of_free (same : taskOp.queueType = queue)
    (free : ∀ barrier, ¬ info.updates.Linked barrier position) (task : Nat) :
    position = task ↔ LastAt info blockSize (position + 1) queue task := by
  rw [same] at own
  unfold LastAt
  rw [next]
  constructor
  · rintro rfl
    exact ⟨⟨Nat.lt_succ_self _, rfl, own⟩, free, fun later greater bound =>
      absurd (Nat.le_of_lt_succ bound) greater.not_ge⟩
  · rintro ⟨⟨bound, _, _⟩, _, last⟩
    by_contra different
    obtain ⟨barrier, linked⟩ := last position ((Nat.le_of_lt_succ bound).lt_of_ne' different)
      (Nat.lt_succ_self _) own
    exact free barrier linked

theorem lastAt_succ_of_kept (kept : taskOp.queueType = queue →
    ∃ barrier, info.updates.Linked barrier position) (task : Nat) :
    LastAt info blockSize position queue task ↔
      LastAt info blockSize (position + 1) queue task := by
  have updating : info.queueTypeOf position = some queue →
      ∃ barrier, info.updates.Linked barrier position :=
    fun mine => kept (Option.some_inj.mp (own.symm.trans mine))
  unfold LastAt
  rw [next]
  constructor
  · rintro ⟨⟨less, block, mine⟩, none, last⟩
    refine ⟨⟨less.trans (Nat.lt_succ_self _), block, mine⟩, none,
      fun later greater bound queued => ?_⟩
    rcases Nat.lt_succ_iff_lt_or_eq.mp bound with early | rfl
    · exact last later greater early queued
    · exact updating queued
  · rintro ⟨⟨bound, block, mine⟩, none, last⟩
    refine ⟨⟨(Nat.le_of_lt_succ bound).lt_of_ne ?_, block, mine⟩, none,
      fun later greater early => last later greater (early.trans (Nat.lt_succ_self _))⟩
    rintro rfl
    exact (updating mine).elim none

theorem firstAt_succ_of_kept (block : 0 < position / blockSize)
    (kept : taskOp.queueType = queue → (∀ barrier, ¬ info.waits.Linked barrier position) →
      ∃ known, FirstAt info blockSize position queue known) (task : Nat) :
    FirstAt info blockSize position queue task ↔
      FirstAt info blockSize (position + 1) queue task := by
  unfold FirstAt at kept ⊢
  rw [next]
  constructor
  · rintro ⟨⟨_, less, same, mine⟩, rest⟩
    exact ⟨⟨block, less.trans (Nat.lt_succ_self _), same, mine⟩, rest⟩
  · rintro ⟨⟨_, bound, same, mine⟩, none, first⟩
    refine ⟨⟨block, (Nat.le_of_lt_succ bound).lt_of_ne ?_, same, mine⟩, none, first⟩
    rintro rfl
    -- An earlier task of the queue is known, so this one is not the first.
    obtain ⟨known, ⟨_, less, knownBlock, knownOwn⟩, knownNone, _⟩ :=
      kept (Option.some_inj.mp (own.symm.trans mine)) none
    exact (first known less knownBlock knownOwn).elim knownNone

theorem firstAt_succ_of_free (block : 0 < position / blockSize) (same : taskOp.queueType = queue)
    (free : ∀ barrier, ¬ info.waits.Linked barrier position)
    (unknown : ∀ known, ¬ FirstAt info blockSize position queue known) (task : Nat) :
    position = task ↔ FirstAt info blockSize (position + 1) queue task := by
  rw [same] at own
  -- No task of the queue is known, so all tasks before wait for something.
  have waiting : ∀ earlier, earlier < position → earlier / blockSize = position / blockSize →
      info.queueTypeOf earlier = some queue → ∃ barrier, info.waits.Linked barrier earlier := by
    intro earlier
    induction earlier using Nat.strong_induction_on with
    | _ earlier ih =>
      intro less together mine
      by_contra none
      exact unknown earlier ⟨⟨block, less, together, mine⟩, not_exists.mp none,
        fun other lesser => ih other lesser (lesser.trans less)⟩
  unfold FirstAt
  rw [next]
  constructor
  · rintro rfl
    exact ⟨⟨block, Nat.lt_succ_self _, rfl, own⟩, free, waiting⟩
  · rintro ⟨⟨_, bound, together, mine⟩, none, _⟩
    by_contra different
    exact (waiting task ((Nat.le_of_lt_succ bound).lt_of_ne' different) together mine).elim none

end

section

variable (pos : 0 < blockSize)
  (added : SyncBarriersAdded info blockSize (info.lastBlock blockSize) start)
  (found : info.allTaskOps[position]? = some taskOp)
include pos added found

theorem linkLastTasks_spec (linked : QueuesLinked info blockSize start position loop) :
    let after := linkLastTasks blockSize (info.lastBlock blockSize + 1) loop (taskOp, position)
    Splitting info blockSize after.1 ∧
      after.1.info.getNumOfVirtualBarriers = start.info.getNumOfVirtualBarriers ∧
      LastLinked info blockSize start (position + 1) after ∧
      FirstLinked info blockSize start position after := by
  obtain ⟨state, queues⟩ := loop
  have lasts := linked.lasts
  have own := queueTypeOf_eq found
  unfold linkLastTasks
  dsimp only
  rw [syncTask_eq, Nat.add_sub_cancel]
  by_cases before : position / blockSize < info.lastBlock blockSize
  · rw [if_pos before]
    by_cases isSync : position = syncTask blockSize (position / blockSize)
    · rw [if_pos isSync]
      have next := succ_div_of_eq pos isSync
      have members := lasts.mem_iff pos before isSync
      have entered := linked.splitting.enter (syncTask blockSize (position / blockSize))
      have inside : ∀ entry ∈ queues.lastTaskWithNoUpdateBar.toList,
          entry.2 < info.getNumOfTasks := by
        intro entry mem
        have block := ((members entry.2).mp ⟨entry, mem, rfl⟩).2
        have bound := le_syncTask pos entry.2
        have last := syncTask_succ_lt pos before
        rw [block] at bound
        omega
      have adds := Adds.of_enter
        (foldl_addProducer_adds entered before queues.lastTaskWithNoUpdateBar.toList inside)
      refine ⟨adds.splitting, adds.barriers.trans linked.barriers,
        ⟨fun barrier task => ?_, fun _ queue task => ?_⟩,
        ⟨fun barrier task => ?_, linked.firsts.first⟩⟩
      · rw [adds.updates, lasts.updates, or_assoc, next]
        refine or_congr_right ?_
        constructor
        · rintro (⟨earlier, conditions⟩ | ⟨entry, mem, place, rfl⟩)
          · exact ⟨earlier.trans (Nat.lt_succ_self _), conditions⟩
          · obtain ⟨last, block⟩ := (members entry.2).mp ⟨entry, mem, rfl⟩
            exact ⟨block ▸ Nat.lt_succ_self _, last, block.symm ▸ place⟩
        · rintro ⟨earlier, last, place⟩
          rcases Nat.lt_succ_iff_lt_or_eq.mp earlier with less | block
          · exact .inl ⟨less, last, place⟩
          · obtain ⟨entry, mem, same⟩ := (members task).mpr ⟨last, block⟩
            exact .inr ⟨entry, mem, block ▸ place, same⟩
      · refine iff_of_false (by simp) ?_
        rintro ⟨⟨less, block, _⟩, _⟩
        have monotone : task / blockSize ≤ position / blockSize :=
          Nat.div_le_div_right (Nat.le_of_lt_succ less)
        omega
      · rw [adds.waits, linked.firsts.waits, or_iff_left (by simp)]
    · rw [if_neg isSync]
      have next := succ_div_of_ne pos isSync
      have empty := lasts.isEmpty_iff added pos linked.splitting isSync
      have updates := lasts.updates
      rw [← next] at updates
      split
      · next without =>
        refine ⟨linked.splitting, linked.barriers, ⟨updates, fun _ queue task => ?_⟩,
          ⟨linked.firsts.waits, linked.firsts.first⟩⟩
        rw [Std.TreeMap.getElem?_insert]
        by_cases same : taskOp.queueType = queue
        · rw [if_pos (Std.compare_eq_iff_eq.mpr same), Option.some_inj]
          exact lastAt_succ_of_free next own same (empty.mp without) task
        · rw [if_neg (mt Std.compare_eq_iff_eq.mp same)]
          exact (lasts.last before queue task).trans
            (lastAt_succ_of_kept next own (fun equal => absurd equal same) task)
      · next without =>
        rw [empty, not_forall_not] at without
        refine ⟨linked.splitting, linked.barriers, ⟨updates, fun _ queue task => ?_⟩, linked.firsts⟩
        exact (lasts.last before queue task).trans
          (lastAt_succ_of_kept next own (fun _ => without) task)
  · rw [if_neg before]
    have grows : position / blockSize ≤ (position + 1) / blockSize :=
      Nat.div_le_div_right (Nat.le_succ position)
    refine ⟨linked.splitting, linked.barriers, ⟨fun barrier task => ?_, fun early => ?_⟩,
      linked.firsts⟩
    · rw [lasts.updates]
      refine or_congr_right (and_congr_left fun conditions => ?_)
      have block := conditions.1.block
      omega
    · omega

theorem linkFirstTasks_spec (blocks : 0 < info.lastBlock blockSize)
    (splitting : Splitting info blockSize loop.1)
    (barriers : loop.1.info.getNumOfVirtualBarriers = start.info.getNumOfVirtualBarriers)
    (lasts : LastLinked info blockSize start (position + 1) loop)
    (firsts : FirstLinked info blockSize start position loop) :
    QueuesLinked info blockSize start (position + 1)
      (linkFirstTasks blockSize info.getNumOfTasks loop (taskOp, position)) := by
  obtain ⟨state, queues⟩ := loop
  have inside : position < info.getNumOfTasks := (List.getElem?_eq_some_iff.mp found).1
  have own := queueTypeOf_eq found
  unfold linkFirstTasks
  dsimp only
  rw [syncTask_eq]
  have occupied : position / blockSize ≤ info.lastBlock blockSize := div_le_lastBlock
    blockSize inside
  by_cases block : 0 < position / blockSize
  · rw [if_pos block]
    have before : position / blockSize - 1 < info.lastBlock blockSize := by omega
    by_cases flush : position = syncTask blockSize (position / blockSize) ∨
        position + 1 = info.getNumOfTasks
    · rw [syncTask_previous block,
        if_pos (by simp only [Bool.or_eq_true, decide_eq_true_eq]; omega)]
      have members := firsts.mem_iff pos inside block flush
      have entered := splitting.enter (syncTask blockSize (position / blockSize - 1))
      have entriesInside : ∀ entry ∈ queues.firstTaskWithNoWaitBar.toList,
          entry.2 < info.getNumOfTasks := by
        intro entry mem
        exact (Nat.lt_succ_self _).trans ((members entry.2).mp ⟨entry, mem, rfl⟩).1.inside
      have adds := Adds.of_enter
        (foldl_addConsumer_adds entered before queues.firstTaskWithNoWaitBar.toList entriesInside)
      have next : ∀ task, info.FirstWithoutWait blockSize task →
          (task / blockSize < (position + 1) / blockSize ∨ position + 1 = info.getNumOfTasks ↔
            task / blockSize ≤ position / blockSize) := by
        intro task first
        rcases flush with isSync | last
        · rw [succ_div_of_eq pos isSync]
          have top : position + 1 = info.getNumOfTasks →
              task / blockSize ≤ position / blockSize := fun last =>
            Nat.div_le_div_right (by have early := first.inside; omega)
          omega
        · have early : task / blockSize ≤ position / blockSize :=
            Nat.div_le_div_right (by have early := first.inside; omega)
          exact iff_of_true (.inr last) early
      refine ⟨adds.splitting, adds.barriers.trans barriers,
        ⟨fun barrier task => ?_, lasts.last⟩, ⟨fun barrier task => ?_, fun early queue task => ?_⟩⟩
      · rw [adds.updates, lasts.updates, or_iff_left (by simp)]
      · rw [adds.waits, firsts.waits, or_assoc]
        refine or_congr_right ?_
        constructor
        · rintro (⟨earlier, first, place⟩ | ⟨entry, mem, place, rfl⟩)
          · refine ⟨(next task first).mpr ?_, first, place⟩
            exact earlier.elim le_of_lt fun equal => absurd equal inside.ne
          · obtain ⟨first, same⟩ := (members entry.2).mp ⟨entry, mem, rfl⟩
            exact ⟨(next entry.2 first).mpr same.le, first, same.symm ▸ place⟩
        · rintro ⟨earlier, first, place⟩
          rcases Nat.lt_or_eq_of_le ((next task first).mp earlier) with less | same
          · exact .inl ⟨.inl less, first, place⟩
          · obtain ⟨entry, mem, equal⟩ := (members task).mpr ⟨first, same⟩
            exact .inr ⟨entry, mem, same ▸ place, equal⟩
      · refine iff_of_false (by simp) ?_
        rintro ⟨⟨_, bound, same, _⟩, _⟩
        have isSync := flush.resolve_right early.ne
        rw [succ_div_of_eq pos isSync] at same
        have monotone : task / blockSize ≤ position / blockSize :=
          Nat.div_le_div_right (Nat.le_of_lt_succ bound)
        omega
    · rw [if_neg (by simp only [Bool.or_eq_true, decide_eq_true_eq]; omega)]
      push Not at flush
      have next := succ_div_of_ne pos flush.1
      have empty := firsts.isEmpty_iff added pos splitting inside flush.1
      have waits : ∀ barrier task, state.info.waits.Linked barrier task ↔
          start.info.waits.Linked barrier task ∨
            (task / blockSize < (position + 1) / blockSize ∨ position + 1 = info.getNumOfTasks) ∧
            info.FirstWithoutWait blockSize task ∧
            barrier = info.getNumOfVirtualBarriers + 2 * (task / blockSize - 1) + 1 := by
        intro barrier task
        rw [firsts.waits, next, or_iff_left inside.ne, or_iff_left flush.2]
      have known : ∀ queue, queue ∈ queues.firstTaskWithNoWaitBar ↔
          ∃ known, FirstAt info blockSize position queue known := fun queue =>
        Std.TreeMap.mem_iff_isSome_getElem?.trans
          (Option.isSome_iff_exists.trans (exists_congr (firsts.first inside queue)))
      split
      · next without =>
        split
        · next present =>
          refine ⟨splitting, barriers, lasts, ⟨waits, fun _ queue task => ?_⟩⟩
          refine (firsts.first inside queue task).trans
            (firstAt_succ_of_kept next own block (fun same _ => ?_) task)
          exact (known queue).mp (same ▸ Std.TreeMap.contains_iff_mem.mp present)
        · next absent =>
          refine ⟨splitting, barriers, ⟨lasts.updates, lasts.last⟩, ⟨waits, fun _ queue task => ?_⟩⟩
          rw [Std.TreeMap.getElem?_insert]
          by_cases same : taskOp.queueType = queue
          · rw [if_pos (Std.compare_eq_iff_eq.mpr same), Option.some_inj]
            refine firstAt_succ_of_free next own block same (empty.mp without)
              (fun other isFirst => ?_) task
            exact absent (same ▸ Std.TreeMap.contains_iff_mem.mpr
              ((known queue).mpr ⟨other, isFirst⟩))
          · rw [if_neg (mt Std.compare_eq_iff_eq.mp same)]
            exact (firsts.first inside queue task).trans
              (firstAt_succ_of_kept next own block (fun equal => absurd equal same) task)
      · next waiting =>
        refine ⟨splitting, barriers, lasts, ⟨waits, fun _ queue task => ?_⟩⟩
        exact (firsts.first inside queue task).trans (firstAt_succ_of_kept next own block
          (fun _ free => absurd (empty.mpr free) waiting) task)
  · rw [if_neg block]
    have first : position / blockSize = 0 := Nat.eq_zero_of_not_pos block
    have early : position + 1 < info.getNumOfTasks := by
      have bound := le_syncTask pos position
      have last := syncTask_succ_lt pos blocks
      rw [first] at bound
      omega
    -- The tasks before and at this position are in the first block.
    have within : ∀ task, task < position + 1 → task / blockSize = 0 := by
      intro task bound
      have monotone : task / blockSize ≤ position / blockSize :=
        Nat.div_le_div_right (Nat.le_of_lt_succ bound)
      exact Nat.eq_zero_of_le_zero (first ▸ monotone)
    have next : (position + 1) / blockSize ≤ 1 := by
      rw [← Nat.lt_succ_iff, Nat.div_lt_iff_lt_mul pos]
      have bound := le_syncTask pos position
      have succ := succ_syncTask pos 0
      rw [first] at bound
      omega
    refine ⟨splitting, barriers, lasts, ⟨fun barrier task => ?_, fun _ queue task => ?_⟩⟩
    · rw [firsts.waits]
      refine or_congr_right (iff_of_false ?_ ?_)
      · rintro ⟨less | equal, _⟩
        · exact Nat.not_lt_zero _ (first ▸ less)
        · omega
      · rintro ⟨less | equal, found, _⟩
        · exact absurd (Nat.le_of_lt_succ (less.trans_le next)) found.block.not_ge
        · omega
    · rw [firsts.first inside]
      refine iff_of_false (fun conditions => block conditions.1.1) ?_
      rintro ⟨⟨later, bound, same, _⟩, _⟩
      have zero := within task bound
      omega

end

end Steps

/-! ### The whole loop -/

theorem linkQueueTasks_adds (pos : 0 < blockSize) (blocks : 0 < info.lastBlock blockSize)
    {start : SplitState Queue}
    (added : SyncBarriersAdded info blockSize (info.lastBlock blockSize) start) :
    Adds info blockSize start (info.allTaskOps.zipIdx.foldl
        (linkQueueTasks blockSize (info.lastBlock blockSize + 1) info.getNumOfTasks)
        (start, ⟨∅, ∅⟩)).1
      (fun barrier task => info.LastWithoutUpdate blockSize task ∧
        barrier = info.getNumOfVirtualBarriers + 2 * (task / blockSize))
      (fun barrier task => info.FirstWithoutWait blockSize task ∧
        barrier = info.getNumOfVirtualBarriers + 2 * (task / blockSize - 1) + 1) := by
  have initial : QueuesLinked info blockSize start 0 (start, ⟨∅, ∅⟩) := by
    refine ⟨added.splitting pos, rfl, ⟨fun barrier task => ?_, fun _ queue task => ?_⟩,
      ⟨fun barrier task => ?_, fun _ queue task => ?_⟩⟩
    · simp
    · simp
    · refine (or_iff_left ?_).symm
      rintro ⟨less | equal, _⟩
      · simp at less
      · unfold lastBlock at blocks
        rw [← equal] at blocks
        simp at blocks
    · simp
  have linked : QueuesLinked info blockSize start (0 + info.allTaskOps.length)
      (info.allTaskOps.zipIdx.foldl
        (linkQueueTasks blockSize (info.lastBlock blockSize + 1) info.getNumOfTasks)
        (start, ⟨∅, ∅⟩)) := by
    refine foldl_zipIdx (QueuesLinked info blockSize start) _ _ _ initial ?_
    intro idx taskOp found loop linked
    rw [Nat.zero_add] at linked ⊢
    obtain ⟨splitting, barriers, lasts, firsts⟩ := linkLastTasks_spec pos added found linked
    exact linkFirstTasks_spec pos added found blocks splitting barriers lasts firsts
  rw [Nat.zero_add] at linked
  refine ⟨linked.splitting, linked.barriers, fun barrier task => ?_, fun barrier task => ?_⟩
  · rw [linked.lasts.updates]
    refine or_congr_right (and_iff_right_of_imp fun conditions => ?_)
    have monotone : info.lastBlock blockSize ≤ info.getNumOfTasks / blockSize :=
      Nat.div_le_div_right (Nat.sub_le _ _)
    exact conditions.1.block.trans_le monotone
  · rw [linked.firsts.waits]
    exact or_congr_right (and_iff_right (.inr rfl))

end NpuPlugin.BarrierInfo
