/-
This file proves what the whole pass guarantees: the order of the tasks under barriers and DMA
queues, an index-ordered result, and no barrier that became half-empty.
-/

import NpuPlugin.DMABarrierOptimization.Merged

namespace NpuPlugin.DMABarrierOptimization

open BarrierInfo BarrierLegalization Bool Except List Prod Relation Run

variable {Queue : Type} {info current after : BarrierInfo Queue}
  {taskQueueTypeMap : TaskQueueTypeMap Queue} {origWaitBarriersMap : List TaskSet}
  {dmaQueueTypes : List Queue}

/-! ### The tasks of the barriers of a block -/

theorem getControlGraphBlockTaskRange_eq (placed : info.SyncTasksPlaced) {blockInd : Nat}
    (block : blockInd < info.getControlGraphBlockCount) (first last : Bool) :
    info.getControlGraphBlockTaskRange blockInd first last = .ok
      (if blockInd = 0 then 0
        else if first then info.syncTasksIds.getD (blockInd - 1) 0
        else info.syncTasksIds.getD (blockInd - 1) 0 + 1,
      if blockInd + 1 = info.getControlGraphBlockCount then info.getNumOfTasks - 1
        else if last then info.syncTasksIds.getD blockInd 0
        else info.syncTasksIds.getD blockInd 0 - 1) := by
  unfold getControlGraphBlockTaskRange
  rw [if_neg block.not_ge]
  by_cases final : blockInd + 1 = info.getControlGraphBlockCount
  · simp only [final, if_true, previous_ok placed.occupied]
    rfl
  · have inside : blockInd < info.syncTasksIds.length := by
      unfold getControlGraphBlockCount at block final
      omega
    simp only [final, if_false]
    cases last with
    | true => rfl
    | false =>
      simp only [false_eq_true, if_false, previous_ok (placed.getD_bound inside).1]
      rfl

section Block

variable {blockInd lower upper : Nat}

section

variable {start last : Nat} (placed : info.SyncTasksPlaced)
  (block : blockInd < info.getControlGraphBlockCount)
  (range : info.getControlGraphBlockTaskRange blockInd true true = .ok (lower, upper))
include placed block range

theorem le_upper_of_inner
    (inner : info.getControlGraphBlockTaskRange blockInd true false = .ok (start, last)) :
    start = lower ∧ ∀ task, task ≤ last →
      task ≤ upper ∧ (task = upper → upper + 1 = info.getNumOfTasks) := by
  have occupied := placed.occupied
  rw [getControlGraphBlockTaskRange_eq placed block] at range inner
  obtain ⟨rfl, rfl⟩ := mk.inj (ok.inj range)
  obtain ⟨rfl, rfl⟩ := mk.inj (ok.inj inner)
  refine ⟨rfl, fun task bound => ?_⟩
  by_cases final : blockInd + 1 = info.getControlGraphBlockCount
  · simp only [final, if_true] at bound ⊢
    exact ⟨bound, fun _ => Nat.sub_add_cancel occupied⟩
  · have inside : blockInd < info.syncTasksIds.length := by
      unfold getControlGraphBlockCount at block final
      omega
    have pos := (placed.getD_bound inside).1
    simp only [final, if_false, if_true, false_eq_true] at bound ⊢
    exact ⟨by omega, fun same => by omega⟩

theorem lower_le_of_inner
    (inner : info.getControlGraphBlockTaskRange blockInd false true = .ok (start, last)) :
    last = upper ∧ ∀ task, start ≤ task → lower ≤ task ∧ (task = lower → lower = 0) := by
  rw [getControlGraphBlockTaskRange_eq placed block] at range inner
  obtain ⟨rfl, rfl⟩ := mk.inj (ok.inj range)
  obtain ⟨rfl, rfl⟩ := mk.inj (ok.inj inner)
  refine ⟨rfl, fun task bound => ?_⟩
  by_cases zero : blockInd = 0
  · simp only [zero, if_true] at bound ⊢
    exact ⟨bound, fun _ => trivial⟩
  · simp only [zero, if_false, if_true, false_eq_true] at bound ⊢
    exact ⟨by omega, fun same => by omega⟩

end

variable (valid : info.Valid) (ordered : info.IndexOrdered) (respects : info.RespectsSplit)
  (placed : info.SyncTasksPlaced) (range : info.BlockRange blockInd lower upper)

include valid ordered respects placed range

theorem consumer_inside {task child : Nat} (below : lower ≤ task) (above : task < upper)
    (controls : info.Controls task child) : lower < child ∧ child ≤ upper :=
  ⟨below.trans_lt (ordered.lt controls), (follows_inside .update valid ordered respects placed
    range below above.le ⟨fun both => absurd both.1 above.ne, controls⟩).2⟩

theorem producer_inside {task child : Nat} (below : lower < child) (above : child ≤ upper)
    (controls : info.Controls task child) : lower ≤ task ∧ task < upper :=
  ⟨(follows_inside .wait valid ordered respects placed range below.le above
    ⟨fun both => absurd both.1 below.ne', neighbour_wait.mpr controls⟩).1,
    (ordered.lt controls).trans_le above⟩

theorem within_of_consumer {barrier consumer : Nat} (balanced : ¬ info.HalfEmpty barrier)
    (waited : info.waits.Linked barrier consumer) (below : lower ≤ consumer)
    (above : consumer ≤ upper) (start : consumer = lower → lower = 0) (side : Side) (task : Nat)
    (linked : (info.table side).Linked barrier task) : lower ≤ task ∧ task ≤ upper := by
  obtain ⟨producer, updated⟩ := (not_not.mp balanced).mpr ⟨consumer, waited⟩
  have less := ordered barrier _ _ updated waited
  have later : lower < consumer := by
    rcases eq_or_lt_of_le below with same | less
    · have zero := start same.symm
      omega
    · exact less
  have bounds := producer_inside valid ordered respects placed range later above
    ⟨barrier, updated, waited⟩
  cases side with
  | update =>
    have inside := producer_inside valid ordered respects placed range later above
      ⟨barrier, linked, waited⟩
    exact ⟨inside.1, inside.2.le⟩
  | wait =>
    have inside := consumer_inside valid ordered respects placed range bounds.1 bounds.2
      ⟨barrier, updated, linked⟩
    exact ⟨inside.1.le, inside.2⟩

theorem within_of_producer {barrier producer : Nat} (balanced : ¬ info.HalfEmpty barrier)
    (updated : info.updates.Linked barrier producer) (below : lower ≤ producer)
    (above : producer ≤ upper) (final : producer = upper → upper + 1 = info.getNumOfTasks)
    (side : Side) (task : Nat) (linked : (info.table side).Linked barrier task) :
    lower ≤ task ∧ task ≤ upper := by
  obtain ⟨consumer, waited⟩ := (not_not.mp balanced).mp ⟨producer, updated⟩
  have less := ordered barrier _ _ updated waited
  have bound := valid.task_lt .wait waited
  have earlier : producer < upper := by
    rcases eq_or_lt_of_le above with same | less
    · have last := final same
      omega
    · exact less
  have inside := consumer_inside valid ordered respects placed range below earlier
    ⟨barrier, updated, waited⟩
  exact within_of_consumer valid ordered respects placed range balanced waited inside.1.le
    inside.2 (fun same => absurd same inside.1.ne') side task linked

end Block

/-! ### The pass ends -/

/-- An index-ordered graph whose sync tasks are uniformly distributed, whose barriers respect
them, and where no barrier has tasks on one side only. -/
structure Ready (info : BarrierInfo Queue) : Prop where
  valid : info.Valid
  ordered : info.IndexOrdered
  respects : info.RespectsSplit
  uniform : ReduceBarrierDependencies.UniformlySplit info
  balanced : ∀ barrier, ¬ info.HalfEmpty barrier

variable {queues : Queue → Bool}

theorem Ready.of_keeps (ready : Ready info) (keeps : Keeps queues info after)
    (respects : after.RespectsSplit) : Ready after :=
  ⟨keeps.valid, keeps.ordered, respects, uniformlySplit_of_same ready.uniform keeps.same,
    fun barrier half => ready.balanced barrier (keeps.balanced half)⟩

theorem Ready.of_removes (ready : Ready info) (removes : Removes queues info after) : Ready after :=
  ready.of_keeps removes.toKeeps (removes.respects ready.respects)

theorem getControlGraphBlockCount_of_same (same : info.SameTasks after) :
    after.getControlGraphBlockCount = info.getControlGraphBlockCount :=
  congrArg (fun ids => length ids + 1) same.syncTasksIds

section Success

variable {taskBlockIndex lower upper : Nat}

theorem Ready.updateBarriers (ready : Ready info)
    (block : taskBlockIndex < info.getControlGraphBlockCount)
    (range : info.getControlGraphBlockTaskRange taskBlockIndex true true = .ok (lower, upper))
    (blockRange : info.BlockRange taskBlockIndex lower upper) :
    ∃ barriers, info.getBarriersForTaskBlock taskBlockIndex true false .update = .ok barriers ∧
      Within info barriers lower upper := by
  have placed := ready.uniform.toSyncTasksPlaced
  obtain ⟨start, last, inner, inside⟩ := getControlGraphBlockTaskRange_inner placed block
  obtain ⟨barriers, found⟩ := getBarriersForTaskBlock_ok .update inner inside
  obtain ⟨_, _, sameRange, _, _, members⟩ := getBarriersForTaskBlock_spec ready.valid found
  cases inner.symm.trans sameRange
  obtain ⟨rfl, bounds⟩ := le_upper_of_inner placed block range inner
  refine ⟨barriers, found, fun barrier mem => ?_⟩
  obtain ⟨producer, ⟨below, above⟩, updated⟩ := (members barrier).mp mem
  have position := bounds producer above
  exact within_of_producer ready.valid ready.ordered ready.respects placed blockRange
    (ready.balanced barrier) updated below position.1 position.2

theorem Ready.waitBarriers (ready : Ready info) (removes : Removes queues info current)
    (block : taskBlockIndex < info.getControlGraphBlockCount)
    (range : info.getControlGraphBlockTaskRange taskBlockIndex true true = .ok (lower, upper))
    (blockRange : info.BlockRange taskBlockIndex lower upper) :
    ∃ barriers, current.getBarriersForTaskBlock taskBlockIndex false true .wait = .ok barriers ∧
      Within info barriers lower upper := by
  have placed := ready.uniform.toSyncTasksPlaced
  have sameRange : current.getControlGraphBlockTaskRange taskBlockIndex false true =
      info.getControlGraphBlockTaskRange taskBlockIndex false true := by
    unfold getControlGraphBlockTaskRange
    rw [getControlGraphBlockCount_of_same removes.same, removes.same.syncTasksIds,
      removes.same.tasks]
  have inner := getControlGraphBlockTaskRange_eq placed block false true
  have sameEnd := (lower_le_of_inner placed block range inner).1
  obtain ⟨barriers, found⟩ := getBarriersForTaskBlock_ok .wait (sameRange.trans inner)
    (by rw [sameEnd, removes.same.tasks]; exact blockRange.inside)
  obtain ⟨_, _, foundRange, _, _, members⟩ := getBarriersForTaskBlock_spec removes.valid found
  obtain ⟨rfl, bounds⟩ := lower_le_of_inner placed block range (sameRange.symm.trans foundRange)
  refine ⟨barriers, found, fun barrier mem => ?_⟩
  obtain ⟨consumer, ⟨below, above⟩, waited⟩ := (members barrier).mp mem
  have position := bounds consumer below
  exact within_of_consumer ready.valid ready.ordered ready.respects placed blockRange
    (ready.balanced barrier) (removes.subset .wait waited) position.1 above position.2

section

variable {taskControlMap : TaskControlMap} {queues : Queue → Bool} {lower upper barrier : Nat}
  (sound : taskControlMap.Sound info queues lower upper)
include sound

theorem removeRedundantProducers_ok
    (inside : ∀ task, info.updates.Linked barrier task → lower ≤ task ∧ task ≤ upper)
    (thinned : Thinned queues info current) :
    ∃ last, removeRedundantProducers taskControlMap current barrier = .ok last ∧
      Thinned queues info last := by
  obtain ⟨tasks, found⟩ := @findRedundantDependencies_ok _ _ info current _ _ _ sound true
    (current.getBarrierProducers barrier).elements ∅
    fun task mem => inside task (thinned.subset .update mem)
  have res : removeRedundantProducers taskControlMap current barrier =
      .ok (current.removeProducers barrier tasks) := by
    unfold removeRedundantProducers
    rw [found]
    rfl
  exact ⟨_, res, removeRedundantProducers_thinned sound barrier current _ thinned res⟩

theorem removeRedundantConsumers_ok
    (inside : ∀ task, info.waits.Linked barrier task → lower ≤ task ∧ task ≤ upper)
    (thinned : Thinned queues info current) :
    ∃ last, removeRedundantConsumers taskControlMap current barrier = .ok last ∧
      Thinned queues info last := by
  obtain ⟨tasks, found⟩ := @findRedundantDependencies_ok _ _ info current _ _ _ sound false
    (current.getBarrierConsumers barrier).elements ∅
    fun task mem => inside task (thinned.subset .wait mem)
  have res : removeRedundantConsumers taskControlMap current barrier =
      .ok (current.removeConsumers barrier tasks) := by
    unfold removeRedundantConsumers
    rw [found]
    rfl
  exact ⟨_, res, removeRedundantConsumers_thinned sound barrier current _ thinned res⟩

end

variable [DecidableEq Queue]

section

variable (ready : Ready info) (describes : taskQueueTypeMap.Describes info dmaQueueTypes)
include ready describes

theorem removeRedundantOfBlock_ok (block : taskBlockIndex < info.getControlGraphBlockCount)
    (considerTaskFifoDependency : Bool) :
    ∃ last, removeRedundantOfBlock taskQueueTypeMap considerTaskFifoDependency info
      taskBlockIndex = .ok last := by
  have placed := ready.uniform.toSyncTasksPlaced
  obtain ⟨lower, upper, range, blockRange⟩ := getControlGraphBlockTaskRange_ok placed block
  obtain ⟨taskControlMap, built⟩ := buildTaskControlMap_ok ready.valid ready.ordered
    ready.respects placed block taskQueueTypeMap considerTaskFifoDependency
  obtain ⟨_, _, sameRange, sound⟩ := buildTaskControlMap_sound ready.valid describes
    (fun queue mem => (decide_eq_true mem : isDMAQueue dmaQueueTypes queue = true)) built
  cases range.symm.trans sameRange
  obtain ⟨updates, updatesFound, updatesWithin⟩ := ready.updateBarriers block range blockRange
  obtain ⟨middle, producers, thinned⟩ := foldlM_ok
    (Thinned (isDMAQueue dmaQueueTypes) info) updates
    (fun barrier mem current before => removeRedundantProducers_ok sound
      (updatesWithin barrier mem .update) before) info (Thinned.refl ready.valid)
  obtain ⟨waits, waitsFound, waitsWithin⟩ := ready.waitBarriers
    (thinned.removes ready.valid ready.ordered) block range blockRange
  obtain ⟨last, consumers, _⟩ := foldlM_ok (Thinned (isDMAQueue dmaQueueTypes) info) waits
    (fun barrier mem current before => removeRedundantConsumers_ok sound
      (waitsWithin barrier mem .wait) before) middle thinned
  refine ⟨last, ?_⟩
  unfold removeRedundantOfBlock
  rw [built]
  simp only [bind, Except.bind, mapError_ok.mpr updatesFound, producers,
    mapError_ok.mpr waitsFound, consumers]

theorem removeRedundantDependencies_ok (considerTaskFifoDependency : Bool) :
    ∃ last, removeRedundantDependencies taskQueueTypeMap considerTaskFifoDependency info =
      .ok last ∧ Removes (isDMAQueue dmaQueueTypes) info last := by
  refine foldlM_ok (Removes (isDMAQueue dmaQueueTypes) info) _
    (fun block mem current before => ?_) info (Removes.refl ready.valid ready.ordered)
  have inside : block < current.getControlGraphBlockCount :=
    (getControlGraphBlockCount_of_same before.same).symm ▸ mem_range.mp mem
  obtain ⟨last, res⟩ := removeRedundantOfBlock_ok (ready.of_removes before)
    (describes.of_same before.same) inside considerTaskFifoDependency
  exact ⟨last, res, before.trans (removeRedundantOfBlock_removes before.valid before.ordered
    (describes.of_same before.same) res)⟩

theorem removeExplicitOfBarrier_ok (available : dmaQueueTypes ≠ []) (barrier : Nat) :
    ∃ last, removeExplicitOfBarrier taskQueueTypeMap info barrier = .ok last := by
  obtain ⟨middle, consumers⟩ := removeExplicitConsumers_ok barrier describes available
  have same := (removeExplicitConsumers_unlinks ready.valid describes consumers).same
  obtain ⟨last, producers⟩ := removeExplicitProducers_ok barrier (describes.of_same same) available
  rcases removeExplicitOfBarrier_eq consumers producers with ⟨_, res⟩ | ⟨half, _⟩
  · exact ⟨last, res⟩
  · exact absurd ((explicit_of_steps ready.valid describes consumers producers).balanced half)
      (ready.balanced barrier)

theorem removeExplicitDependencies_ok (available : dmaQueueTypes ≠ []) :
    ∃ last, removeExplicitDependencies taskQueueTypeMap info = .ok last ∧
      Removes (isDMAQueue dmaQueueTypes) info last := by
  refine foldlM_ok (Removes (isDMAQueue dmaQueueTypes) info) _
    (fun block mem current before => ?_) info (Removes.refl ready.valid ready.ordered)
  have currentReady := ready.of_removes before
  have placed := currentReady.uniform.toSyncTasksPlaced
  have inside : block < current.getControlGraphBlockCount :=
    (getControlGraphBlockCount_of_same before.same).symm ▸ mem_range.mp mem
  obtain ⟨start, final, inner, bound⟩ := getControlGraphBlockTaskRange_inner placed inside
  obtain ⟨barriers, found⟩ := getBarriersForTaskBlock_ok .update inner bound
  obtain ⟨last, res, removes⟩ := foldlM_ok (Removes (isDMAQueue dmaQueueTypes) info) barriers
    (fun barrier _ state removes => by
      obtain ⟨next, step⟩ := removeExplicitOfBarrier_ok (ready.of_removes removes)
        (describes.of_same removes.same) available barrier
      exact ⟨next, step, removes.trans (removeExplicitOfBarrier_removes removes.valid
        removes.ordered (describes.of_same removes.same) step)⟩) current before
  refine ⟨last, ?_, removes⟩
  unfold removeExplicitOfBlock
  rw [mapError_ok.mpr found]
  exact res

end

omit [DecidableEq Queue] in
theorem mergeBarriersOfBlock_ok (ready : Ready info)
    (entries : taskQueueTypeMap.entries.isEmpty = false)
    (block : taskBlockIndex < info.getControlGraphBlockCount) :
    ∃ last, mergeBarriersOfBlock taskQueueTypeMap origWaitBarriersMap info taskBlockIndex =
      .ok last ∧ Ready last ∧ info.SameTasks last := by
  have placed := ready.uniform.toSyncTasksPlaced
  obtain ⟨lower, upper, range, blockRange⟩ := getControlGraphBlockTaskRange_ok placed block
  obtain ⟨barriers, found, within⟩ := ready.updateBarriers block range blockRange
  obtain ⟨last, merging⟩ := @mergeOrderedBarriers_ok _ _ origWaitBarriersMap entries
    (((barIndAndMaxProdVec info barriers).map fst).drop
      (barriers.countP fun barrierInd => (info.getBarrierProducers barrierInd).isEmpty)) info
  have res : mergeBarriersOfBlock taskQueueTypeMap origWaitBarriersMap info taskBlockIndex =
      .ok last := by
    unfold mergeBarriersOfBlock
    rw [mapError_ok.mpr found]
    exact merging
  obtain ⟨same, sameFound, steps⟩ := mergeBarriersOfBlock_steps ready.valid ready.ordered res
  cases found.symm.trans sameFound
  have keeps : Keeps (fun _ => true) info last :=
    keeps_of_mergeSteps ready.valid ready.ordered steps
  exact ⟨last, res, ready.of_keeps keeps (respects_of_mergeSteps ready.valid ready.ordered
    within ready.uniform blockRange ready.respects steps), keeps.same⟩

omit [DecidableEq Queue] in
theorem mergeBarriers_ok (ready : Ready info) (entries : taskQueueTypeMap.entries.isEmpty = false) :
    ∃ last, mergeBarriers taskQueueTypeMap origWaitBarriersMap info = .ok last ∧ Ready last ∧
      info.SameTasks last := by
  refine foldlM_ok (fun current => Ready current ∧ info.SameTasks current) _
    (fun block mem current before => ?_) info ⟨ready, SameTasks.refl info⟩
  have inside : block < current.getControlGraphBlockCount :=
    (getControlGraphBlockCount_of_same before.2).symm ▸ mem_range.mp mem
  obtain ⟨last, res, lastReady, same⟩ :=
    @mergeBarriersOfBlock_ok _ _ _ origWaitBarriersMap _ before.1 entries inside
  exact ⟨last, res, lastReady, before.2.trans same⟩

end Success

/-! ### The pass -/

section Pass

variable [DecidableEq Queue]

theorem dmaBarrierOptimization_keeps (valid : info.Valid) (ordered : info.IndexOrdered)
    (res : dmaBarrierOptimization dmaQueueTypes info = .ok after) :
    Keeps (isDMAQueue dmaQueueTypes) info after := by
  have describes := buildTaskQueueTypeMap_describes info dmaQueueTypes
  obtain ⟨first, redundant, res⟩ := bind_ok res
  obtain ⟨second, explicit, res⟩ := bind_ok res
  obtain ⟨third, merging, last⟩ := bind_ok res
  have one := removeRedundantDependencies_removes valid ordered describes redundant
  have two := one.trans (removeExplicitDependencies_removes one.valid one.ordered
    (describes.of_same one.same) explicit)
  have three := two.toKeeps.trans (mergeBarriers_keeps two.valid two.ordered merging)
  exact three.trans (removeRedundantDependencies_removes three.valid three.ordered
    (describes.of_same three.same) last).toKeeps

omit [DecidableEq Queue] in
theorem controlPathExists_unchecked (taskControlMap : TaskControlMap) (task other : Nat)
    (biDirection : Bool) : Unchecked (controlPathExistsBetweenTasksInSameBlock taskControlMap
      task other biDirection) := by
  have position : ∀ task, Unchecked (taskControlMap.position task) := by
    intro task side barrier failed
    unfold TaskControlMap.position at failed
    split at failed <;> cases failed
  exact (position task).bind fun _ => (position other).bind fun _ => Unchecked.ok _

omit [DecidableEq Queue] in
theorem findRedundantDependencies_unchecked (taskControlMap : TaskControlMap) (producer : Bool)
    (rest : List Nat) : ∀ found : TaskSet,
      Unchecked (findRedundantDependencies info taskControlMap producer rest found) := by
  induction rest with
  | nil => exact fun found => Unchecked.ok found
  | cons taskIndex later ih =>
    intro found
    unfold findRedundantDependencies
    split
    · exact ih _
    · refine (Unchecked.foldlM (fun found next => ?_) later found).bind
        fun _ => ih _
      unfold findRedundantPair
      split
      · exact Unchecked.ok _
      · exact (controlPathExists_unchecked taskControlMap _ _ _).bind fun _ => Unchecked.ok _

omit [DecidableEq Queue] in
theorem buildTaskControlMap_unchecked (blockIdx : Nat) (considerTaskFifoDependency : Bool) :
    Unchecked (info.buildTaskControlMap taskQueueTypeMap blockIdx considerTaskFifoDependency) := by
  refine (Unchecked.maps _).bind fun range => ?_
  dsimp only
  split
  · exact fun _ _ failed => by cases failed
  · refine (Unchecked.foldlM (fun rows task => ?_) _ _).bind fun _ => Unchecked.ok _
    unfold joinChildren
    split
    · exact Unchecked.ok _
    · refine Unchecked.foldlM (fun rows child => ?_) _ _
      split
      · exact Unchecked.ok _
      · exact fun _ _ failed => by cases failed

omit [DecidableEq Queue] in
theorem removeRedundantDependencies_unchecked (considerTaskFifoDependency : Bool) :
    Unchecked (removeRedundantDependencies taskQueueTypeMap considerTaskFifoDependency info) := by
  refine Unchecked.foldlM (fun info block => ?_) _ _
  refine (buildTaskControlMap_unchecked _ _).bind fun taskControlMap => ?_
  refine (Unchecked.maps _).bind fun updates => ?_
  refine (Unchecked.foldlM (fun info barrier =>
    (findRedundantDependencies_unchecked _ _ _ _).bind fun _ => Unchecked.ok _) _ _).bind
      fun middle => ?_
  refine (Unchecked.maps _).bind fun waits => ?_
  exact Unchecked.foldlM (fun info barrier =>
    (findRedundantDependencies_unchecked _ _ _ _).bind fun _ => Unchecked.ok _) _ _

/-- The check fails only at a barrier that came without consumers and with a sync point as
producer. -/
theorem dmaBarrierOptimization_failed (valid : info.Valid) (ordered : info.IndexOrdered)
    {side : Side} {barrier : Nat} (res : dmaBarrierOptimization dmaQueueTypes info =
      .error (.invalidOptimization side barrier)) : Guarded info barrier := by
  have describes := buildTaskQueueTypeMap_describes info dmaQueueTypes
  rcases bind_error res with early | ⟨first, redundant, res⟩
  · exact absurd early (removeRedundantDependencies_unchecked _ side barrier)
  have one := removeRedundantDependencies_removes valid ordered describes redundant
  rcases bind_error res with failed | ⟨second, _, res⟩
  · exact (removeExplicitDependencies_failed one.valid one.ordered (describes.of_same one.same)
      failed).of_removes one
  rcases bind_error res with late | ⟨third, _, late⟩
  · exact absurd late (mergeBarriers_unchecked _ side barrier)
  · exact absurd late (removeRedundantDependencies_unchecked _ side barrier)

theorem dmaBarrierOptimization_ok (ready : Ready info) (available : dmaQueueTypes ≠ []) :
    ∃ after, dmaBarrierOptimization dmaQueueTypes info = .ok after := by
  have describes := buildTaskQueueTypeMap_describes info dmaQueueTypes
  obtain ⟨first, redundant, one⟩ := removeRedundantDependencies_ok ready describes true
  obtain ⟨second, explicit, two⟩ := removeExplicitDependencies_ok (ready.of_removes one)
    (describes.of_same one.same) available
  have same := one.same.trans two.same
  obtain ⟨third, merging, thirdReady, thirdSame⟩ := @mergeBarriers_ok _ _ _
    info.getWaitBarriersMap ((ready.of_removes one).of_removes two)
    (describes.isEmpty available)
  obtain ⟨last, final, _⟩ := removeRedundantDependencies_ok thirdReady
    (describes.of_same (same.trans thirdSame)) true
  refine ⟨last, ?_⟩
  unfold dmaBarrierOptimization
  simp only [redundant, explicit, merging, final, bind, Except.bind]

/-- Whenever the pass ends, tasks that were ordered by barriers and DMA queues still are, the
barriers are index-ordered, so that there is no cycle, and only a barrier that came with tasks on
one side only has such tasks at the end. The check on explicit dependencies fails at no other
barrier, and without such barriers the pass ends on every uniformly split graph. -/
theorem dmaBarrierOptimization_spec (valid : info.Valid) (ordered : info.IndexOrdered)
    (dmaQueueTypes : List Queue) :
    (∀ after, dmaBarrierOptimization dmaQueueTypes info = .ok after →
      Keeps (isDMAQueue dmaQueueTypes) info after ∧
        Reachability.Acyclic (after.OrderedWith (isDMAQueue dmaQueueTypes))) ∧
    (∀ side barrier, dmaBarrierOptimization dmaQueueTypes info =
      .error (.invalidOptimization side barrier) → Guarded info barrier) ∧
    (info.verifyControlGraphSplit = .ok true → ReduceBarrierDependencies.UniformlySplit info →
      (∀ barrier, ¬ info.HalfEmpty barrier) → dmaQueueTypes ≠ [] →
      ∃ after, dmaBarrierOptimization dmaQueueTypes info = .ok after) := by
  refine ⟨fun after res => ?_,
    fun side barrier res => dmaBarrierOptimization_failed valid ordered res,
    fun verified uniform balanced available => dmaBarrierOptimization_ok ⟨valid, ordered,
      verifyControlGraphSplit_respects valid verified, uniform, balanced⟩ available⟩
  have keeps := dmaBarrierOptimization_keeps valid ordered res
  exact ⟨keeps, Reachability.Increasing.acyclic (keeps.ordered.increasing _)⟩

end Pass

/-- Two blocks. Behind the sync task the tasks of two DMA queues have a barrier each for the last
task; these barriers are merged. -/
def twoQueueTasks : List (TaskOp Nat) :=
  [⟨0, 1, [], [0], false⟩, ⟨2, 1, [0], [1], false⟩, ⟨2, 1, [1], [2], true⟩,
    ⟨0, 1, [2], [3], false⟩, ⟨1, 1, [2], [4], false⟩, ⟨2, 1, [3, 4], [], false⟩]

/-- Both sides of every barrier in use are in use. -/
def checkBalanced (info : BarrierInfo Queue) : Bool :=
  (List.range info.getNumOfVirtualBarriers).all fun barrier =>
    (info.getBarrierProducers barrier).isEmpty = (info.getBarrierConsumers barrier).isEmpty

theorem not_halfEmpty_of_check (valid : info.Valid) (checked : checkBalanced info = true)
    (barrier : Nat) : ¬ info.HalfEmpty barrier := by
  intro half
  by_cases inside : barrier < info.getNumOfVirtualBarriers
  · have same := all_eq_true.mp checked barrier (mem_range.mpr inside)
    have differ := isEmpty_xor_iff.mpr half
    rw [of_decide_eq_true same, Bool.xor_self] at differ
    exact false_ne_true differ
  · have none : ∀ side task, ¬ (info.table side).Linked barrier task :=
      fun side task linked => inside (valid.barrier_lt side linked)
    exact half (iff_of_false (not_exists.mpr (none .update)) (not_exists.mpr (none .wait)))

theorem twoQueueTasks_built : ∃ info : BarrierInfo Nat,
    buildBarrierMaps twoQueueTasks 5 = .ok info ∧
      decide (info.IndexOrdered ∧ info.verifyControlGraphSplit = .ok true ∧
        info.syncTasksIds = [2] ∧ info.controlGraphBlockSize = 3 ∧
        checkBalanced info = true) = true :=
  exists_ok _ _ (by decide +kernel)

theorem dmaBarrierOptimization_spec_two_queues : ∃ info after : BarrierInfo Nat,
    buildBarrierMaps twoQueueTasks 5 = .ok info ∧
      dmaBarrierOptimization [0, 1] info = .ok after ∧ Keeps (isDMAQueue [0, 1]) info after ∧
      Reachability.Acyclic (after.OrderedWith (isDMAQueue [0, 1])) := by
  obtain ⟨info, built, checked⟩ := twoQueueTasks_built
  obtain ⟨ordered, verified, ids, size, balanced⟩ := of_decide_eq_true checked
  obtain ⟨valid, tasks⟩ := buildBarrierMaps_valid built
  have count : info.getNumOfTasks = 6 := congrArg length tasks
  have uniform : ReduceBarrierDependencies.UniformlySplit info := by
    refine ⟨⟨by rw [count]; decide, by rw [ids, size]; decide, ?_⟩, fun _ => ?_⟩
    · rw [ids, count]
      decide
    · rw [ids, size, count]
      decide
  have spec := dmaBarrierOptimization_spec valid ordered [0, 1]
  obtain ⟨after, res⟩ := spec.2.2 verified uniform (not_halfEmpty_of_check valid balanced)
    (cons_ne_nil _ _)
  exact ⟨info, after, built, res, spec.1 after res⟩

/-- A sync task produces a barrier that no task waits for; a second barrier has a consumer
only. -/
def unusedSyncBarrierTasks : List (TaskOp Nat) :=
  [⟨0, 1, [], [], false⟩, ⟨1, 1, [], [0], true⟩, ⟨0, 1, [], [], false⟩, ⟨0, 1, [], [], false⟩]

def unproducedBarrierTasks : List (TaskOp Nat) := [⟨0, 1, [], [], false⟩, ⟨1, 1, [0], [], false⟩]

/-- The check fails at a barrier of a sync task without consumers, and a barrier without producers
stays as it is. -/
theorem halfEmpty_barriers :
    (∃ info : BarrierInfo Nat, buildBarrierMaps unusedSyncBarrierTasks 1 = .ok info ∧
      decide (info.IndexOrdered ∧ info.verifyControlGraphSplit = .ok true ∧
        dmaBarrierOptimization [0, 1] info = .error (.invalidOptimization .wait 0)) = true) ∧
    ∃ info : BarrierInfo Nat, buildBarrierMaps unproducedBarrierTasks 1 = .ok info ∧
      decide (info.IndexOrdered ∧ info.verifyControlGraphSplit = .ok true ∧
        (dmaBarrierOptimization [0, 1] info).toOption.any (fun after =>
          (after.getBarrierProducers 0).isEmpty && !(after.getBarrierConsumers 0).isEmpty) =
            true) = true :=
  ⟨exists_ok _ _ (by decide +kernel), exists_ok _ _ (by decide +kernel)⟩

end NpuPlugin.DMABarrierOptimization
