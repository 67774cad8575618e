/-
This file puts the steps of the split together and proves when a split leaves a barrier with only
producers or only consumers, and when it keeps the order from before.
-/

import NpuPlugin.BarrierInfo.SplitQueues
import NpuPlugin.BarrierInfo.SplitTables
import NpuPlugin.Library.Reachability

namespace NpuPlugin.BarrierInfo

open List Nat Relation Run

variable {Queue : Type} {info after : BarrierInfo Queue} {blockSize : Nat}
  {stays : Nat → Prop}

/-! ### The whole split -/

theorem Redirecting.initial {base : SplitState Queue} (splitting : Splitting info blockSize base)
    (barriers : base.info.getNumOfVirtualBarriers =
      info.getNumOfVirtualBarriers + 2 * info.lastBlock blockSize) :
    Redirecting info blockSize base (fun _ => False) 0 base := by
  refine ⟨splitting, ?_, by simp, by simp, by simp, by simp, by simp⟩
  rw [barriers]
  unfold newBarrierIndex
  rw [count_zero, add_zero]

theorem Redirecting.linked4 {base third fourth : SplitState Queue}
    (redirecting : Redirecting info blockSize base stays info.getNumOfVirtualBarriers third)
    (chained : Adds info blockSize third fourth (fun _ _ => False) fun other task =>
      ∃ block, block + 1 < info.lastBlock blockSize ∧
        other = info.getNumOfVirtualBarriers + 2 * block + 1 ∧
          task = syncTask blockSize (block + 1)) :
    Linked4 info blockSize stays base.info fourth.info := by
  refine ⟨fun other task => ?_, fun other task => ?_⟩
  · rw [chained.updates, redirecting.updates, or_false]
    exact Iff.rfl
  · rw [chained.waits, redirecting.waits]
    exact Iff.rfl

theorem Sanitizing.initial {start : SplitState Queue} (splitting : Splitting info blockSize start) :
    Sanitizing info blockSize start 0 start :=
  ⟨splitting, rfl, by simp, fun _ _ => Iff.rfl⟩

theorem lastBlock_pos (pos : 0 < blockSize) (many : blockSize < info.getNumOfTasks) :
    0 < info.lastBlock blockSize :=
  div_pos (le_sub_one_of_lt many) pos

theorem splitControlGraphToBlocks_spec [LinearOrder Queue] (valid : info.Valid)
    (large : 2 ≤ blockSize)
    (unsplit : info.controlGraphBlockSize = 0) (many : blockSize < info.getNumOfTasks) :
    ((∃ barrier < info.getNumOfVirtualBarriers, ¬ info.Splittable blockSize barrier) ∧
      ∃ failure, info.splitControlGraphToBlocks blockSize = .error failure) ∨
    ∃ after stays, info.splitControlGraphToBlocks blockSize = .ok after ∧
      SplitResult info blockSize stays after := by
  have pos : 0 < blockSize := Nat.zero_lt_two.trans_le large
  have blocks := lastBlock_pos pos many
  unfold splitControlGraphToBlocks
  dsimp only
  rw [if_neg large.not_gt, unsplit, if_neg (Nat.lt_irrefl 0),
    if_neg many.not_ge, blockCount_eq ((Nat.zero_le _).trans_lt many),
    Nat.add_sub_cancel]
  -- Steps 1 and 2.
  have added := addSyncBarriers_foldl pos valid (info.lastBlock blockSize) le_rfl unsplit
  have linked := linkQueueTasks_adds pos blocks added
  have prepared : Prepared info blockSize _ := ⟨fun other task => by
    rw [linked.updates, added.updates], fun other task => by rw [linked.waits, added.waits]⟩
  have initial := Redirecting.initial linked.splitting (linked.barriers.trans added.barriers)
  rw [range_eq_range']
  rcases splitBarriers_spec pos prepared.updates_old prepared.waits_old
    info.getNumOfVirtualBarriers _ _ 0 (Nat.zero_add _) initial with
    ⟨refused, failure, failed⟩ | ⟨third, stays, res, redirecting⟩
  · refine .inl ⟨refused, failure, ?_⟩
    rw [failed]
    rfl
  · have chained := linkSyncTasks_adds pos redirecting.splitting
    have linked4 := redirecting.linked4 chained
    have redistributed := linked4.redistributed valid prepared
    obtain ⟨last, checked, sanitizing⟩ := checkBarriers_spec pos blocks
      (fun barrier inside => (redirecting.oldProduced barrier inside).imp fun producer keeps =>
        (redistributed.oldUpdates barrier inside producer).mpr (.inl keeps))
      (fun barrier inside later emptied task link => by
        refine KeptProducer.block_lt valid (redirecting.splittable barrier inside)
          ((redistributed.unused_iff inside).mp emptied)
          (((redistributed.oldUpdates barrier inside task).mp link).resolve_right ?_)
        exact fun stray => later.ne' stray.1)
      info.getNumOfVirtualBarriers _ 0 (Nat.zero_add _) (.initial chained.splitting)
    -- Steps 6 and 7.
    let pairs := last.syncTaskWaitAndUpdateBarrierIndMap.toList.map Prod.snd
    let reset := pairs.foldl removeUnusedBarriers last.info
    let blockInds := range' 1 (info.lastBlock blockSize)
    have untouched : Untouched last.info (blockInds.foldl (setSyncTask blockSize) reset) :=
      (Untouched.foldl removeUnusedBarriers_untouched pairs last.info).trans
        (Untouched.foldl setSyncTask_untouched blockInds reset)
    refine .inr ⟨blockInds.foldl (setSyncTask blockSize) reset, stays, ?_,
      redistributed.finished blocks redirecting.splittable redirecting.kept redirecting.oldProduced
        rfl sanitizing untouched fun side => table_foldl_setSyncTask side _ _⟩
    rw [res]
    show (foldlM (checkBarrier blockSize info.getNumOfTasks) _ _ >>= _) = _
    rw [checked]
    rfl

theorem splitControlGraphToBlocks_ok [LinearOrder Queue] (valid : info.Valid)
    (accepted : info.splitControlGraphToBlocks blockSize = .ok after)
    (many : blockSize < info.getNumOfTasks) :
    2 ≤ blockSize ∧ info.controlGraphBlockSize = 0 ∧
      ∃ stays, SplitResult info blockSize stays after := by
  have large : 2 ≤ blockSize := by
    by_contra small
    unfold splitControlGraphToBlocks at accepted
    simp [not_le.mp small] at accepted
  have unsplit : info.controlGraphBlockSize = 0 := by
    by_contra size
    unfold splitControlGraphToBlocks at accepted
    simp [large.not_gt, Nat.pos_of_ne_zero size] at accepted
  refine ⟨large, unsplit, ?_⟩
  rcases splitControlGraphToBlocks_spec valid large unsplit many with
    ⟨_, failure, failed⟩ | ⟨other, stays, res, split⟩
  · rw [failed] at accepted
    cases accepted
  · rw [res] at accepted
    cases accepted
    exact ⟨stays, split⟩

theorem splitControlGraphToBlocks_few [LinearOrder Queue]
    (accepted : info.splitControlGraphToBlocks blockSize = .ok after)
    (few : info.getNumOfTasks ≤ blockSize) : after = info := by
  unfold splitControlGraphToBlocks at accepted
  dsimp only at accepted
  split at accepted
  · cases accepted
  · split at accepted
    · cases accepted
    · cases accepted
      rfl

/-! ### Half-empty barriers -/

/-- No barrier has only producers or only consumers. -/
def Balanced (info : BarrierInfo Queue) : Prop :=
  ∀ barrier, (∃ producer, info.updates.Linked barrier producer) ↔
    ∃ consumer, info.waits.Linked barrier consumer

/-- Something in the last block waits for the last sync task. -/
def LastSyncUsed (info : BarrierInfo Queue) (blockSize : Nat) : Prop :=
  (∃ task, task / blockSize = info.lastBlock blockSize ∧ task + 1 < info.getNumOfTasks ∧
    ∀ barrier, ¬ info.waits.Linked barrier task) ∨
  ∃ barrier task other, info.Touches barrier task ∧ info.Touches barrier other ∧
    task / blockSize = info.lastBlock blockSize ∧ other / blockSize < info.lastBlock blockSize

theorem updateConsumer_last_iff (valid : info.Valid) (pos : 0 < blockSize) {block : Nat}
    (last : block + 1 = info.lastBlock blockSize) :
    (∃ task, info.UpdateConsumer blockSize block task) ↔ info.LastSyncUsed blockSize := by
  constructor
  · rintro ⟨task, ⟨found | ⟨barrier, _, -, toUpdate⟩, own⟩ | ⟨inner, _⟩⟩
    · have late := found.block
      exact .inl ⟨task, by omega, found.inside, found.without⟩
    · have late := (toUpdate.block_lt valid).1
      obtain ⟨touches, outside, _⟩ := toUpdate
      unfold InHome at outside
      push Not at outside
      obtain ⟨other, otherTouches, earlier⟩ := outside
      exact .inr ⟨barrier, task, other, touches, otherTouches, by omega, by omega⟩
    · omega
  · rintro (⟨some, conditions⟩ | ⟨barrier, task, other, touches, otherTouches, own, earlier⟩)
    · -- The earliest such task is the first one of its queue.
      classical
      have exists_task : ∃ task, task / blockSize = info.lastBlock blockSize ∧
          task + 1 < info.getNumOfTasks ∧ ∀ barrier, ¬ info.waits.Linked barrier task :=
        ⟨some, conditions⟩
      obtain ⟨own, inside, without⟩ := Nat.find_spec exists_task
      refine ⟨Nat.find exists_task, .inl ⟨.inl ⟨by omega, inside, fun sync => ?_, without, ?_⟩,
        by omega⟩⟩
      · rw [own] at sync
        exact absurd (lt_lastBlock_of_syncTask pos (sync ▸ inside)) (lt_irrefl _)
      · intro earlier less same _
        by_contra none
        push Not at none
        exact Nat.find_min exists_task less ⟨same.trans own, by omega, none⟩
    · have inside : barrier < info.getNumOfVirtualBarriers :=
        touches.elim (valid.barrier_lt .update) (valid.barrier_lt .wait)
      refine ⟨task, .inl ⟨.inr ⟨barrier, inside, ⟨task, other, touches, otherTouches, by omega⟩,
        touches, fun inHome => ?_, fun before => absurd before (by omega)⟩, by omega⟩⟩
      exact absurd (inHome other otherTouches) (by omega)

namespace SplitResult

variable (res : SplitResult info blockSize stays after)

include res

theorem produced_of_consumed {barrier consumer : Nat}
    (linked : after.waits.Linked barrier consumer) :
    ∃ producer, after.updates.Linked barrier producer := by
  cases res.kinds .wait barrier consumer linked with
  | old inside =>
    obtain ⟨producer, keeps⟩ := res.oldProduced barrier inside
    have consumes := (res.oldWaits barrier inside consumer).mp linked
    exact ⟨producer, (res.oldUpdates barrier inside producer).mpr
      ⟨.inl keeps, fun emptied => emptied consumer consumes⟩⟩
  | wait before => exact ((res.waitWaits _ before consumer).mp linked).2
  | update before => exact ⟨_, (res.updateUpdates _ before _).mpr rfl⟩
  | new inside needs =>
    obtain ⟨producer, toNew⟩ := needs
    exact ⟨producer, (res.newUpdates _ inside ⟨producer, toNew⟩ producer).mpr toNew⟩

/-- Only the update barrier of the last sync task can be left without consumers. -/
theorem balanced_iff (valid : info.Valid) (pos : 0 < blockSize)
    (blocks : 0 < info.lastBlock blockSize) : after.Balanced ↔ info.LastSyncUsed blockSize := by
  obtain ⟨block, last⟩ : ∃ block, block + 1 = info.lastBlock blockSize :=
    ⟨info.lastBlock blockSize - 1, by omega⟩
  have before : block < info.lastBlock blockSize := by omega
  rw [← updateConsumer_last_iff valid pos last]
  constructor
  · intro balanced
    obtain ⟨consumer, linked⟩ := (balanced _).mp ⟨_, (res.updateUpdates block before _).mpr rfl⟩
    exact ⟨consumer, (res.updateWaits block before consumer).mp linked⟩
  · intro used barrier
    refine ⟨?_, fun ⟨consumer, linked⟩ => res.produced_of_consumed linked⟩
    rintro ⟨producer, linked⟩
    cases res.kinds .update barrier producer linked with
    | old inside =>
      have filled := ((res.oldUpdates barrier inside producer).mp linked).2
      unfold Emptied at filled
      push Not at filled
      exact filled.imp fun consumer => (res.oldWaits barrier inside consumer).mpr
    | wait inside => exact ⟨_, (res.waitWaits _ inside _).mpr ⟨rfl, producer, linked⟩⟩
    | @update other inside =>
      by_cases next : other + 1 < info.lastBlock blockSize
      · exact ⟨_, (res.updateWaits other inside _).mpr (.inr ⟨next, rfl⟩)⟩
      · rw [show other = block by omega]
        exact used.imp fun consumer => (res.updateWaits block before consumer).mpr
    | @new origin inside needs =>
      have toNew := (res.newUpdates origin inside needs producer).mp linked
      obtain ⟨consumer, waits, own⟩ := toNew.2.2
      exact ⟨consumer, (res.newWaits origin inside needs consumer).mpr
        ⟨waits, producer, toNew, own.symm⟩⟩

end SplitResult

/-- When a split leaves no barrier half empty. -/
theorem splitControlGraphToBlocks_balanced [LinearOrder Queue] (valid : info.Valid)
    (populated : info.Populated) (accepted : info.splitControlGraphToBlocks blockSize = .ok after) :
    after.Balanced ↔ info.getNumOfTasks ≤ blockSize ∨ info.LastSyncUsed blockSize := by
  by_cases few : info.getNumOfTasks ≤ blockSize
  · rw [splitControlGraphToBlocks_few accepted few]
    refine iff_of_true (fun barrier => ⟨?_, ?_⟩) (.inl few)
    · exact fun ⟨_, linked⟩ => (populated barrier (valid.barrier_lt .update linked)).2
    · exact fun ⟨_, linked⟩ => (populated barrier (valid.barrier_lt .wait linked)).1
  · obtain ⟨large, _, stays, res⟩ :=
      splitControlGraphToBlocks_ok valid accepted (not_le.mp few)
    have pos : 0 < blockSize := Nat.zero_lt_two.trans_le large
    rw [or_iff_right few]
    exact res.balanced_iff valid pos (lastBlock_pos pos (not_le.mp few))

/-! ### Runs -/

instance (info : BarrierInfo Queue) : Decidable info.Populated :=
  decidable_of_iff (∀ barrier ∈ List.range info.getNumOfVirtualBarriers,
      (info.updates.row barrier).isEmpty = false ∧ (info.waits.row barrier).isEmpty = false) <| by
    simp only [SmallSet.isEmpty_eq_false_iff, List.mem_range]
    exact Iff.rfl

instance (info : BarrierInfo Queue) : Decidable info.Balanced :=
  decidable_of_iff (∀ barrier ∈ List.range (max info.updates.rows.length info.waits.rows.length),
      (info.updates.row barrier).isEmpty = (info.waits.row barrier).isEmpty) <| by
    have same : ∀ barrier, (info.updates.row barrier).isEmpty = (info.waits.row barrier).isEmpty ↔
        ((∃ producer, info.updates.Linked barrier producer) ↔
          ∃ consumer, info.waits.Linked barrier consumer) := by
      intro barrier
      rw [Bool.eq_iff_iff, ← not_iff_not, SmallSet.isEmpty_iff, SmallSet.isEmpty_iff,
        ← not_exists, ← not_exists, not_iff_not, not_iff_not]
      exact Iff.rfl
    constructor
    · intro checked barrier
      by_cases inside : barrier < max info.updates.rows.length info.waits.rows.length
      · exact (same barrier).mp (checked barrier (List.mem_range.mpr inside))
      · rw [not_lt, max_le_iff] at inside
        exact iff_of_false (fun ⟨_, linked⟩ => absurd linked.row_lt inside.1.not_gt)
          fun ⟨_, linked⟩ => absurd linked.row_lt inside.2.not_gt
    · exact fun balanced barrier _ => (same barrier).mpr (balanced barrier)

/-- Tasks on one queue, where the first two are ordered by a barrier and the others have none. -/
def chainThenFree (count : Nat) : List (TaskOp Nat) :=
  [⟨0, 1, [], [0], false⟩, ⟨0, 1, [0], [], false⟩] ++ List.replicate count ⟨0, 1, [], [], false⟩

theorem splitControlGraphToBlocks_balanced_four : ∃ info after : BarrierInfo Nat,
    buildBarrierMaps (chainThenFree 2) 1 = .ok info ∧
      info.splitControlGraphToBlocks 2 = .ok after ∧
      (after.Balanced ↔ info.getNumOfTasks ≤ 2 ∨ info.LastSyncUsed 2) := by
  obtain ⟨info, built, checked⟩ : ∃ info : BarrierInfo Nat,
      buildBarrierMaps (chainThenFree 2) 1 = .ok info ∧ decide (info.Populated ∧
        (info.splitControlGraphToBlocks 2).toOption.any (fun _ => true) = true) = true :=
    exists_ok _ _ (by decide)
  obtain ⟨populated, accepted⟩ := of_decide_eq_true checked
  obtain ⟨after, res, _⟩ := exists_ok _ _ accepted
  exact ⟨info, after, built, res,
    splitControlGraphToBlocks_balanced (buildBarrierMaps_valid built).1 populated res⟩

/-- The only task of the last block is also the last task of the program: nothing is linked to the
update barrier of the sync task, and the sixth step does not look at it. -/
theorem split_leaves_update_barrier_half_empty : ∃ info after : BarrierInfo Nat,
    buildBarrierMaps (chainThenFree 1) 1 = .ok info ∧ info.Populated ∧
      info.splitControlGraphToBlocks 2 = .ok after ∧ ¬ after.Balanced := by
  obtain ⟨info, built, checked⟩ : ∃ info : BarrierInfo Nat,
      buildBarrierMaps (chainThenFree 1) 1 = .ok info ∧ decide (info.Populated ∧
        (info.splitControlGraphToBlocks 2).toOption.any (fun after => ¬ after.Balanced)) = true :=
    exists_ok _ _ (by decide)
  obtain ⟨populated, accepted⟩ := of_decide_eq_true checked
  obtain ⟨after, res, unbalanced⟩ := exists_ok _ _ accepted
  exact ⟨info, after, built, populated, res, of_decide_eq_true unbalanced⟩

/-! ### Facts about index-ordered barriers -/

section Facts

variable {barrier task other : Nat}

theorem not_crossing_inner (inner : ¬ info.Crossing blockSize barrier)
    (touches : info.Touches barrier task) (otherTouches : info.Touches barrier other) :
    task / blockSize = other / blockSize :=
  not_crossing_iff.mp inner task other touches otherTouches

theorem InHome.same (inHome : info.InHome blockSize barrier task)
    (touches : info.Touches barrier task) (otherInHome : info.InHome blockSize barrier other)
    (otherTouches : info.Touches barrier other) : task / blockSize = other / blockSize :=
  (inHome other otherTouches).antisymm (otherInHome task touches)

theorem HomeSync.eq (sync : info.HomeSync blockSize barrier other)
    (inHome : info.InHome blockSize barrier task) (touches : info.Touches barrier task) :
    other = syncTask blockSize (task / blockSize) := by
  obtain ⟨home, homeTouches, homeInHome, rfl⟩ := sync
  rw [inHome.same touches homeInHome homeTouches]

theorem KeptProducer.inHome (kept : info.KeptProducer blockSize stays barrier task)
    (crossing : info.Crossing blockSize barrier) : info.InHome blockSize barrier task :=
  not_not.mp fun outside => kept.2 ⟨crossing, .inl ⟨kept.1, outside⟩⟩

theorem KeptProducer.of_ne (linked : info.updates.Linked barrier task)
    (inHome : info.Crossing blockSize barrier → info.InHome blockSize barrier task)
    (regular : task ≠ syncTask blockSize (task / blockSize)) :
    info.KeptProducer blockSize stays barrier task := by
  refine ⟨linked, ?_⟩
  rintro ⟨crossing, moved | ⟨_, sync⟩⟩
  · exact moved.2 (inHome crossing)
  · exact regular (sync.eq (inHome crossing) (.inl linked))

theorem OldConsumer.of_linked (linked : info.waits.Linked barrier task)
    (inHome : info.Crossing blockSize barrier → info.InHome blockSize barrier task) :
    info.OldConsumer blockSize stays barrier task :=
  .inl ⟨linked, fun conditions => conditions.2.2 (inHome conditions.1)⟩

section Ordered

variable (ordered : info.IndexOrdered)

include ordered

theorem IndexOrdered.ne_syncTask (pos : 0 < blockSize) {consumer : Nat}
    (linked : info.updates.Linked barrier task) (waits : info.waits.Linked barrier consumer)
    (same : task / blockSize = consumer / blockSize) :
    task ≠ syncTask blockSize (task / blockSize) := by
  have less := ordered barrier task consumer linked waits
  have bound := le_syncTask pos consumer
  rw [← same] at bound
  exact (less.trans_le bound).ne

/-- Where a barrier is consumed, no producer is in a later block. -/
theorem IndexOrdered.inLastProducing {consumer : Nat} (waits : info.waits.Linked barrier consumer)
    (same : task / blockSize = consumer / blockSize) :
    info.InLastProducing blockSize barrier task := by
  intro other linked
  rw [same]
  exact Nat.div_le_div_right (ordered barrier other consumer linked waits).le

theorem IndexOrdered.not_stray (valid : info.Valid)
    (splittable : ∀ barrier < info.getNumOfVirtualBarriers, info.Splittable blockSize barrier) :
    ¬ info.Stray blockSize barrier task := by
  rintro ⟨_, final, origin, inside, ⟨linked, _⟩, notNew, _⟩
  have lastBlock : ∀ other, other < info.getNumOfTasks → task ≤ other →
      other / blockSize = task / blockSize := by
    intro other bound later
    have monotone : task / blockSize ≤ other / blockSize := Nat.div_le_div_right later
    have limit := div_le_lastBlock blockSize bound
    omega
  obtain ⟨consumer, waits⟩ := (splittable origin inside).consumed
  have own := lastBlock consumer (valid.task_lt .wait waits)
    (ordered origin task consumer linked waits).le
  rcases notNew with notLast | notConsumed
  · exact notLast (ordered.inLastProducing waits own.symm)
  · exact notConsumed ⟨consumer, waits, own⟩

end Ordered

end Facts

/-! ### The links that a split makes -/

namespace SplitResult

variable (res : SplitResult info blockSize stays after) {barrier task child : Nat}

include res

theorem controls_old (inside : barrier < info.getNumOfVirtualBarriers)
    (kept : info.KeptProducer blockSize stays barrier task)
    (consumes : info.OldConsumer blockSize stays barrier child) : after.Controls task child :=
  ⟨barrier, (res.oldUpdates barrier inside task).mpr
    ⟨.inl kept, fun emptied => emptied child consumes⟩,
    (res.oldWaits barrier inside child).mpr consumes⟩

theorem controls_wait (before : task / blockSize < info.lastBlock blockSize)
    (linked : info.WaitProducer blockSize task ∨
      ∃ barrier < info.getNumOfVirtualBarriers, info.Emptied blockSize stays barrier ∧
        info.KeptProducer blockSize stays barrier task ∧
          task ≠ syncTask blockSize (task / blockSize)) :
    after.Controls task (syncTask blockSize (task / blockSize)) := by
  have updates := (res.waitUpdates _ before task).mpr ⟨rfl, linked⟩
  exact ⟨_, updates, (res.waitWaits _ before _).mpr ⟨rfl, task, updates⟩⟩

theorem controls_new (inside : barrier < info.getNumOfVirtualBarriers)
    (toNew : info.ToNew blockSize barrier task) (waits : info.waits.Linked barrier child)
    (same : task / blockSize = child / blockSize) : after.Controls task child :=
  ⟨_, (res.newUpdates barrier inside ⟨task, toNew⟩ task).mpr toNew,
    (res.newWaits barrier inside ⟨task, toNew⟩ child).mpr ⟨waits, task, toNew, same⟩⟩

theorem controls_update {block : Nat} (before : block < info.lastBlock blockSize)
    (consumes : info.UpdateConsumer blockSize block task) :
    after.Controls (syncTask blockSize block) task :=
  ⟨_, (res.updateUpdates block before _).mpr rfl, (res.updateWaits block before task).mpr consumes⟩

theorem controls_fromSync (valid : info.Valid) (entered : info.EnteredFromSync blockSize task) :
    after.Controls (syncTask blockSize (task / blockSize - 1)) task := by
  rcases entered with found | ⟨barrier, crossing, toUpdate⟩
  · exact res.controls_update found.block_lt (.inl ⟨.inl found, rfl⟩)
  · have inside : barrier < info.getNumOfVirtualBarriers :=
      toUpdate.1.elim (valid.barrier_lt .update) (valid.barrier_lt .wait)
    exact res.controls_update (toUpdate.block_lt valid).2
      (.inl ⟨.inr ⟨barrier, inside, crossing, toUpdate⟩, rfl⟩)

theorem controls_chain {block : Nat} (before : block + 1 < info.lastBlock blockSize) :
    after.Controls (syncTask blockSize block) (syncTask blockSize (block + 1)) :=
  res.controls_update ((lt_succ_self block).trans before) (.inr ⟨before, rfl⟩)

/-- A producer in the first block of a barrier comes before the sync task of that block or before a
consumer there. -/
theorem controls_home (valid : info.Valid) (linked : info.updates.Linked barrier task)
    (crossing : info.Crossing blockSize barrier) (inHome : info.InHome blockSize barrier task)
    (regular : task ≠ syncTask blockSize (task / blockSize)) :
    after.Controls task (syncTask blockSize (task / blockSize)) ∨ stays barrier ∧
      ∃ child, info.waits.Linked barrier child ∧ child / blockSize = task / blockSize ∧
        after.Controls task child := by
  have inside : barrier < info.getNumOfVirtualBarriers := valid.barrier_lt .update linked
  have kept : info.KeptProducer blockSize stays barrier task :=
    .of_ne linked (fun _ => inHome) regular
  by_cases remains : stays barrier
  · by_cases emptied : info.Emptied blockSize stays barrier
    · exact .inl (res.controls_wait (crossing.home_lt valid inHome)
        (.inr ⟨barrier, inside, emptied, kept, regular⟩))
    · unfold Emptied at emptied
      push Not at emptied
      obtain ⟨child, consumes⟩ := emptied
      have controls := res.controls_old inside kept consumes
      rcases consumes with ⟨waits, stillThere⟩ | ⟨_, left, _⟩
      · have childHome : info.InHome blockSize barrier child :=
          not_not.mp fun outside => stillThere ⟨crossing, waits, outside⟩
        exact .inr ⟨remains, child, waits, childHome.same (.inr waits) inHome (.inl linked),
          controls⟩
      · exact absurd remains left
  · refine .inl (res.controls_old inside kept (.inr ⟨crossing, remains, ?_⟩))
    exact ⟨task, .inl linked, inHome, rfl⟩

/-! ### The direct order after the split -/

section Ordered

variable (valid : info.Valid) (pos : 0 < blockSize) (ordered : info.IndexOrdered)

include valid pos ordered

theorem controls_of_splitEdge (edge : info.SplitEdge blockSize task child) :
    after.Controls task child := by
  cases edge with
  | inner controls same =>
    obtain ⟨barrier, linked, waits⟩ := controls
    have inside : barrier < info.getNumOfVirtualBarriers := valid.barrier_lt .update linked
    have regular := ordered.ne_syncTask pos linked waits same
    by_cases home : info.Crossing blockSize barrier → info.InHome blockSize barrier task
    · refine res.controls_old inside (.of_ne linked home regular) (.of_linked waits ?_)
      intro crossing other touches
      rw [← same]
      exact home crossing other touches
    · push Not at home
      exact res.controls_new inside ⟨⟨linked, home.2⟩, ordered.inLastProducing waits same,
        child, waits, same.symm⟩ waits same
  | toSync links =>
    rcases links with found | ⟨before, regular, barrier, crossing, linked, place⟩
    · exact res.controls_wait found.block (.inl (.inl found))
    · have inside : barrier < info.getNumOfVirtualBarriers := valid.barrier_lt .update linked
      by_cases inHome : info.InHome blockSize barrier task
      · rcases res.controls_home valid linked crossing inHome regular with
          toSync | ⟨remains, consumer, waits, own, _⟩
        · exact toSync
        · -- The sync task would produce the barrier for its own block.
          have sync := res.kept barrier inside crossing remains _
            ⟨task, .inl linked, inHome, rfl⟩
          have less := ordered barrier _ consumer sync waits
          have bound := le_syncTask pos consumer
          rw [own] at bound
          exact absurd less bound.not_gt
      · refine res.controls_wait before (.inl (.inr ⟨barrier, inside, ⟨linked, inHome⟩,
          place.resolve_left inHome, ?_, fun _ => regular⟩))
        exact (lt_succ_self _).trans (syncTask_succ_lt pos before)
  | fromSync entered => exact res.controls_fromSync valid entered
  | chain before => exact res.controls_chain before

omit pos in
theorem splitEdge_of_controls (controls : after.Controls task child) :
    info.SplitEdge blockSize task child := by
  obtain ⟨barrier, updates, waits⟩ := controls
  cases res.kinds .update barrier task updates with
  | old inside =>
    obtain ⟨kept | stray, _⟩ := (res.oldUpdates barrier inside task).mp updates
    · rcases (res.oldWaits barrier inside child).mp waits with
        ⟨linked, stillThere⟩ | ⟨crossing, left, sync⟩
      · refine .inner ⟨barrier, kept.1, linked⟩ ?_
        by_cases crossing : info.Crossing blockSize barrier
        · refine (kept.inHome crossing).same (.inl kept.1) ?_ (.inr linked)
          exact not_not.mp fun outside => stillThere ⟨crossing, linked, outside⟩
        · exact not_crossing_inner crossing (.inl kept.1) (.inr linked)
      · have inHome := kept.inHome crossing
        rw [sync.eq inHome (.inl kept.1)]
        refine .toSync (.inr ⟨crossing.home_lt valid inHome, fun itself => ?_, barrier, crossing,
          kept.1, .inl inHome⟩)
        exact kept.2 ⟨crossing, .inr ⟨left, task, .inl kept.1, inHome, itself⟩⟩
    · exact absurd stray (ordered.not_stray valid res.splittable)
  | @wait block before =>
    obtain ⟨rfl, links⟩ := (res.waitUpdates block before task).mp updates
    rw [((res.waitWaits _ before child).mp waits).1]
    refine .toSync ?_
    rcases links with (found | ⟨origin, _, moved, place, _, regular⟩) |
      ⟨origin, _, emptied, kept, regular⟩
    · exact .inl found
    · exact .inr ⟨before, regular before, origin, moved.crossing, moved.1, .inr place⟩
    · have crossing : info.Crossing blockSize origin := by
        by_contra inner
        obtain ⟨consumer, linked⟩ := (res.splittable origin ‹_›).consumed
        exact emptied consumer (.of_linked linked fun between => absurd between inner)
      exact .inr ⟨before, regular, origin, crossing, kept.1, .inl (kept.inHome crossing)⟩
  | @update block before =>
    rw [(res.updateUpdates block before task).mp updates]
    rcases (res.updateWaits block before child).mp waits with ⟨entered, rfl⟩ | ⟨next, rfl⟩
    · exact .fromSync (entered.imp_right fun ⟨origin, _, entered⟩ => ⟨origin, entered⟩)
    · exact .chain next
  | new inside needs =>
    have toNew := (res.newUpdates _ inside needs task).mp updates
    obtain ⟨linked, producer, otherNew, own⟩ := (res.newWaits _ inside needs child).mp waits
    refine .inner ⟨_, toNew.1.1, linked⟩ ?_
    rw [← own]
    exact (otherNew.2.1 task toNew.1.1).antisymm (toNew.2.1 producer otherNew.1.1)

theorem controls_iff : after.Controls task child ↔ info.SplitEdge blockSize task child :=
  ⟨res.splitEdge_of_controls valid ordered, res.controls_of_splitEdge valid pos ordered⟩

end Ordered

end SplitResult

/-! ### The shape of the edges -/

section Edges

variable {task child : Nat}

theorem EnteredFromSync.block_pos (valid : info.Valid)
    (entered : info.EnteredFromSync blockSize task) : 0 < task / blockSize := by
  rcases entered with found | ⟨_, _, toUpdate⟩
  · exact found.block
  · exact (toUpdate.block_lt valid).1

theorem LinksToSync.ne_syncTask (links : info.LinksToSync blockSize task) :
    task ≠ syncTask blockSize (task / blockSize) :=
  links.elim (fun found => found.regular) fun conditions => conditions.2.1

section

variable (valid : info.Valid) (pos : 0 < blockSize) (ordered : info.IndexOrdered)
  (edge : info.SplitEdge blockSize task child)
include valid pos ordered edge

theorem SplitEdge.place : task < child ∧ (task = syncTask blockSize (task / blockSize) ∧
        task / blockSize + 1 = child / blockSize ∨
      task ≠ syncTask blockSize (task / blockSize) ∧ task / blockSize = child / blockSize) := by
  cases edge with
  | inner controls same =>
    obtain ⟨barrier, linked, waits⟩ := controls
    exact ⟨ordered barrier task child linked waits,
      .inr ⟨ordered.ne_syncTask pos linked waits same, same⟩⟩
  | toSync links =>
    refine ⟨lt_of_le_of_ne (le_syncTask pos task) links.ne_syncTask, .inr ⟨links.ne_syncTask, ?_⟩⟩
    rw [syncTask_div pos]
  | fromSync entered =>
    have late := entered.block_pos valid
    refine ⟨syncTask_lt_of_div pos (by omega), .inl ?_⟩
    rw [syncTask_div pos]
    exact ⟨rfl, by omega⟩
  | chain before =>
    refine ⟨syncTask_lt_syncTask pos (lt_succ_self _), .inl ?_⟩
    rw [syncTask_div pos, syncTask_div pos]
    exact ⟨rfl, rfl⟩

theorem SplitEdge.respectsSplit : respectsSplit blockSize task child = true := by
  obtain ⟨_, place⟩ := edge.place valid pos ordered
  rcases place with ⟨sync, next⟩ | ⟨regular, same⟩
  · exact (if_pos sync).trans (decide_eq_true next)
  · exact (if_neg regular).trans (decide_eq_true same)

end

theorem SplitEdge.sync_chain {first last : Nat} (less : first < last)
    (before : last < info.lastBlock blockSize) :
    TransGen (info.SplitEdge blockSize) (syncTask blockSize first) (syncTask blockSize last) := by
  induction last, less using le_induction with
  | base => exact .single (.chain before)
  | succ last _ ih => exact (ih ((lt_succ_self last).trans before)).tail (.chain before)

end Edges

/-! ### When the order is kept -/

/-- A direct predecessor in the same block. -/
def InBlock (info : BarrierInfo Queue) (blockSize task child : Nat) : Prop :=
  info.Controls task child ∧ task / blockSize = child / blockSize

/-- Inside of its block the task is followed by the sync task or by one that is linked to it. -/
def ReachesSync (info : BarrierInfo Queue) (blockSize task : Nat) : Prop :=
  ∃ last, ReflTransGen (info.InBlock blockSize) task last ∧
    (last = syncTask blockSize (last / blockSize) ∨ info.LinksToSync blockSize last)

/-- Each producer that moves to a new barrier, though a later block waits for it, reaches the sync
task of its block. -/
def MovedReachSync (info : BarrierInfo Queue) (blockSize : Nat) : Prop :=
  ∀ barrier task child, info.ToNew blockSize barrier task → info.waits.Linked barrier child →
    task / blockSize < child / blockSize → info.ReachesSync blockSize task

section Kept

variable {task child : Nat}

theorem ReachesSync.path (reaches : info.ReachesSync blockSize task) :
    ReflTransGen (info.SplitEdge blockSize) task (syncTask blockSize (task / blockSize)) := by
  obtain ⟨last, path, exit⟩ := reaches
  induction path using ReflTransGen.head_induction_on with
  | refl =>
    rcases exit with itself | links
    · rw [← itself]
    · exact .single (.toSync links)
  | head step _ ih =>
    rw [step.2]
    exact .head (.inner step.1 step.2) ih

theorem path_from_sync (valid : info.Valid) {barrier block : Nat}
    (waits : info.waits.Linked barrier child) {earlier : Nat}
    (touches : info.Touches barrier earlier) (own : earlier / blockSize = block)
    (later : block < child / blockSize) :
    TransGen (info.SplitEdge blockSize) (syncTask blockSize block) child := by
  have bound := div_le_lastBlock blockSize (valid.task_lt .wait waits)
  by_cases regular : info.Regular blockSize child
  · have toUpdate : info.ToUpdate blockSize barrier child :=
      ⟨.inr waits, fun inHome => absurd (inHome earlier touches) (by omega), regular⟩
    have entered : info.SplitEdge blockSize (syncTask blockSize (child / blockSize - 1)) child :=
      .fromSync (.inr ⟨barrier, ⟨child, earlier, .inr waits, touches, by omega⟩, toUpdate⟩)
    rcases lt_or_eq_of_le (le_sub_one_of_lt later) with less | equal
    · exact (SplitEdge.sync_chain less (by omega)).tail entered
    · rw [equal]
      exact .single entered
  · unfold Regular at regular
    push Not at regular
    rw [regular.2]
    exact SplitEdge.sync_chain later regular.1

theorem edge_kept (valid : info.Valid) (ordered : info.IndexOrdered)
    (reach : info.MovedReachSync blockSize) (controls : info.Controls task child) :
    TransGen (info.SplitEdge blockSize) task child := by
  obtain ⟨barrier, linked, waits⟩ := controls
  have monotone : task / blockSize ≤ child / blockSize :=
    Nat.div_le_div_right (ordered barrier task child linked waits).le
  rcases lt_or_eq_of_le monotone with later | same
  · have fromSync := path_from_sync valid waits (.inl linked) rfl later
    have bound := div_le_lastBlock blockSize (valid.task_lt .wait waits)
    refine TransGen.trans_right ?_ fromSync
    by_cases itself : task = syncTask blockSize (task / blockSize)
    · rw [← itself]
    · by_cases place : info.InHome blockSize barrier task ∨
          ¬ info.InLastProducing blockSize barrier task ∨
          ¬ info.ConsumedIn blockSize barrier (task / blockSize)
      · exact .single (.toSync (.inr ⟨by omega, itself, barrier,
          ⟨task, child, .inl linked, .inr waits, later.ne⟩, linked, place⟩))
      · push Not at place
        exact (reach barrier task child ⟨⟨linked, place.1⟩, place.2⟩ waits later).path
  · exact .single (.inner ⟨barrier, linked, waits⟩ same)

/-- A path that leaves a block passes its sync task. -/
theorem reachesSync_of_path (pos : 0 < blockSize)
    (path : TransGen (info.SplitEdge blockSize) task child)
    (later : task / blockSize < child / blockSize) : info.ReachesSync blockSize task := by
  have first : ∀ {task next}, info.SplitEdge blockSize task next →
      (task / blockSize < next / blockSize ∨ info.ReachesSync blockSize next) →
        info.ReachesSync blockSize task := by
    intro task next edge further
    cases edge with
    | inner controls same =>
      rcases further with apart | ⟨last, path, exit⟩
      · exact absurd same apart.ne
      · exact ⟨last, .head ⟨controls, same⟩ path, exit⟩
    | toSync links => exact ⟨task, .refl, .inr links⟩
    | fromSync _ => exact ⟨_, .refl, .inl (by rw [syncTask_div pos])⟩
    | chain _ => exact ⟨_, .refl, .inl (by rw [syncTask_div pos])⟩
  induction path using TransGen.head_induction_on with
  | single edge => exact first edge (.inl later)
  | @head task next edge _ ih =>
    refine first edge ?_
    by_cases before : next / blockSize < child / blockSize
    · exact .inr (ih before)
    · exact .inl (later.trans_le (not_lt.mp before))

/-- The order is kept exactly when the moved producers reach the sync tasks. -/
theorem SplitResult.order_kept_iff (res : SplitResult info blockSize stays after)
    (valid : info.Valid) (pos : 0 < blockSize) (ordered : info.IndexOrdered) :
    (∀ task child, info.Precedes task child → after.Precedes task child) ↔
      info.MovedReachSync blockSize := by
  have controls : ∀ {task child}, after.Controls task child ↔ info.SplitEdge blockSize task child :=
    res.controls_iff valid pos ordered
  have precedes : ∀ {task child}, after.Precedes task child ↔
      TransGen (info.SplitEdge blockSize) task child :=
    ⟨TransGen.mono (fun _ _ => controls.mp) _ _, TransGen.mono (fun _ _ => controls.mpr) _ _⟩
  constructor
  · intro kept barrier task child toNew waits later
    exact reachesSync_of_path pos
      (precedes.mp (kept task child (.single ⟨barrier, toNew.1.1, waits⟩))) later
  · intro reach task child path
    rw [precedes]
    induction path with
    | single step => exact edge_kept valid ordered reach step
    | tail _ step ih => exact ih.trans (edge_kept valid ordered reach step)

end Kept

/-! ### The split of an index-ordered graph -/

/-- In an index-ordered graph the first block of a barrier produces it. -/
theorem Populated.splittable (populated : info.Populated) (ordered : info.IndexOrdered)
    {barrier : Nat} (inside : barrier < info.getNumOfVirtualBarriers) :
    info.Splittable blockSize barrier := by
  obtain ⟨produced, consumed⟩ := populated barrier inside
  refine ⟨produced, consumed, fun _ => ?_⟩
  -- The first producer is before all consumers.
  refine ⟨Nat.find produced, Nat.find_spec produced, ?_⟩
  rintro other (linked | waits)
  · exact Nat.div_le_div_right (Nat.find_min' produced linked)
  · exact Nat.div_le_div_right (ordered barrier _ other (Nat.find_spec produced) waits).le

theorem Valid.verify_unsplit (valid : info.Valid) (unsplit : info.controlGraphBlockSize = 0)
    (ids : after.syncTasksIds = info.syncTasksIds) : after.verifyControlGraphSplit = .ok true := by
  unfold verifyControlGraphSplit
  rw [ids, valid.unsplit unsplit]
  rfl

/-- A split of an index-ordered graph is not refused. What it leaves is index-ordered and divided
into blocks, and it keeps the order of all tasks exactly when the moved producers reach the sync
tasks of their blocks. -/
theorem splitControlGraphToBlocks_order [LinearOrder Queue] (valid : info.Valid)
    (ordered : info.IndexOrdered) (populated : info.Populated)
    (unsplit : info.controlGraphBlockSize = 0) (large : 2 ≤ blockSize) :
    ∃ after, info.splitControlGraphToBlocks blockSize = .ok after ∧
      (((∀ task child, info.Precedes task child → after.Precedes task child) ∧
          after.IndexOrdered ∧ after.verifyControlGraphSplit = .ok true ∧
          ∀ task child, after.Controls task child → respectsSplit blockSize task child = true) ↔
        info.MovedReachSync blockSize) := by
  have pos : 0 < blockSize := Nat.zero_lt_two.trans_le large
  rcases lt_or_ge blockSize info.getNumOfTasks with many | few
  · rcases splitControlGraphToBlocks_spec valid large unsplit many with
      ⟨⟨barrier, inside, refused⟩, _⟩ | ⟨after, stays, res, split⟩
    · exact absurd (populated.splittable ordered inside) refused
    · refine ⟨after, res, ?_⟩
      rw [← split.order_kept_iff valid pos ordered]
      have edge : ∀ {task child}, after.Controls task child → info.SplitEdge blockSize task child :=
        split.splitEdge_of_controls valid ordered
      refine and_iff_left ⟨fun barrier producer consumer linked waits => ?_,
        valid.verify_unsplit unsplit split.ids, fun task child controls => ?_⟩
      · exact ((edge ⟨barrier, linked, waits⟩).place valid pos ordered).1
      · exact (edge controls).respectsSplit valid pos ordered
  · have same : info.splitControlGraphToBlocks blockSize = .ok info := by
      unfold splitControlGraphToBlocks
      simp [large.not_gt, unsplit, few]
      rfl
    -- All tasks are in the first block.
    have first : ∀ {task}, task < info.getNumOfTasks → task / blockSize = 0 :=
      fun inside => div_eq_of_lt (inside.trans_le few)
    refine ⟨info, same, iff_of_true ⟨fun _ _ => id, ordered, valid.verify_unsplit unsplit
      rfl, ?_⟩ ?_⟩
    · rintro task child ⟨barrier, linked, waits⟩
      have equal : task / blockSize = child / blockSize := by
        rw [first (valid.task_lt .update linked), first (valid.task_lt .wait waits)]
      exact (if_neg (ordered.ne_syncTask pos linked waits equal)).trans (decide_eq_true equal)
    · intro barrier task child toNew waits later
      rw [first (valid.task_lt .update toNew.1.1), first (valid.task_lt .wait waits)] at later
      exact absurd later (lt_irrefl 0)

theorem splitControlGraphToBlocks_order_four : ∃ info : BarrierInfo Nat,
    buildBarrierMaps (chainThenFree 2) 1 = .ok info ∧
      ∃ after, info.splitControlGraphToBlocks 2 = .ok after ∧
        (((∀ task child, info.Precedes task child → after.Precedes task child) ∧
            after.IndexOrdered ∧ after.verifyControlGraphSplit = .ok true ∧
            ∀ task child, after.Controls task child → respectsSplit 2 task child = true) ↔
          info.MovedReachSync 2) := by
  obtain ⟨info, built, checked⟩ : ∃ info : BarrierInfo Nat,
      buildBarrierMaps (chainThenFree 2) 1 = .ok info ∧ decide (info.IndexOrdered ∧
        info.Populated ∧ info.controlGraphBlockSize = 0) = true :=
    Run.exists_ok _ _ (by decide)
  obtain ⟨ordered, populated, unsplit⟩ := of_decide_eq_true checked
  exact ⟨info, built, splitControlGraphToBlocks_order (buildBarrierMaps_valid built).1 ordered
    populated unsplit le_rfl⟩

/-- Twelve tasks on one queue. One barrier is produced by tasks 0 and 4 and consumed by tasks 5
and 8, so it reaches over all three blocks of four tasks. -/
def threeBlockTasks : List (TaskOp Nat) :=
  (List.range 12).map fun task =>
    ⟨0, 1, if task = 5 ∨ task = 8 then [0] else [], if task = 0 ∨ task = 4 then [0] else [], false⟩

/-- Task 4 moves to a new barrier with task 5, and nothing leads from them to the second sync task,
behind which task 8 waits now. -/
theorem split_loses_order : ∃ info after : BarrierInfo Nat,
    buildBarrierMaps threeBlockTasks 1 = .ok info ∧ info.IndexOrdered ∧ info.Populated ∧
      info.splitControlGraphToBlocks 4 = .ok after ∧ info.Precedes 4 8 ∧ ¬ after.Precedes 4 8 := by
  obtain ⟨info, built, checked⟩ : ∃ info : BarrierInfo Nat,
      buildBarrierMaps threeBlockTasks 1 = .ok info ∧ decide (info.IndexOrdered ∧
        info.Populated ∧ info.updates.Linked 0 4 ∧ info.waits.Linked 0 8 ∧
        (info.splitControlGraphToBlocks 4).toOption.any fun after =>
          ∀ barrier ∈ List.range after.updates.rows.length,
            ∀ task ∈ (after.updates.row barrier).elements, task = 4 ∨ task = 5 →
              ∀ child ∈ (after.waits.row barrier).elements, child = 5) = true :=
    Run.exists_ok _ _ (by decide +kernel)
  obtain ⟨ordered, populated, linked, waits, accepted⟩ := of_decide_eq_true checked
  obtain ⟨after, res, inside⟩ := Run.exists_ok _ _ accepted
  refine ⟨info, after, built, ordered, populated, res, .single ⟨0, linked, waits⟩,
    fun path => ?_⟩
  -- From tasks 4 and 5 every edge leads to task 5.
  have closed : ∀ task child, after.Controls task child → task = 4 ∨ task = 5 → child = 5 := by
    rintro task child ⟨barrier, updates, consumes⟩ early
    exact of_decide_eq_true inside barrier (List.mem_range.mpr updates.row_lt) task updates early
      child consumes
  have stays : ∀ {task}, TransGen after.Controls 4 task → task = 5 := by
    intro task path
    induction path with
    | single step => exact closed _ _ step (.inl rfl)
    | tail _ step ih => exact closed _ _ step (.inr ih)
  exact absurd (stays path) (by decide)

end NpuPlugin.BarrierInfo
