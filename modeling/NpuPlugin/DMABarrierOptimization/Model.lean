/-
This file models `DMABarrierOptimizationPass`. Block by block it removes producers and consumers of
a barrier that other ones of the barrier imply, removes those that the FIFO order of a DMA queue
implies, merges barriers, and removes redundant ones again.
-/

import NpuPlugin.BarrierInfo.TaskControl

namespace NpuPlugin.DMABarrierOptimization

open BarrierInfo BarrierLegalization IncidenceTable List Relation Run SmallSet

variable {Queue : Type}

/-! ### Redundant dependencies -/

/-- One task and a later one of a set of dependencies. -/
def findRedundantPair (info : BarrierInfo Queue) (taskControlMap : TaskControlMap)
    (producer : Bool) (taskIndex : Nat) (dependenciesToRemove : TaskSet) (nextIndex : Nat) :
    Except ControlFailure TaskSet :=
  if info.isSyncPoint nextIndex then .ok dependenciesToRemove
  else do
    let controlPathExists ←
      controlPathExistsBetweenTasksInSameBlock taskControlMap taskIndex nextIndex false
    return if controlPathExists then
        dependenciesToRemove.insert (if producer then taskIndex else nextIndex)
      else dependenciesToRemove

def findRedundantDependencies (info : BarrierInfo Queue) (taskControlMap : TaskControlMap)
    (producer : Bool) : List Nat → TaskSet → Except ControlFailure TaskSet
  | [], dependenciesToRemove => .ok dependenciesToRemove
  | taskIndex :: later, dependenciesToRemove => do
    let dependenciesToRemove ←
      if info.isSyncPoint taskIndex then .ok dependenciesToRemove
      else
        later.foldlM (findRedundantPair info taskControlMap producer taskIndex) dependenciesToRemove
    findRedundantDependencies info taskControlMap producer later dependenciesToRemove

def removeRedundantProducers (taskControlMap : TaskControlMap) (info : BarrierInfo Queue)
    (barrierIdx : Nat) : Except ControlFailure (BarrierInfo Queue) := do
  let producersToRemove ← findRedundantDependencies info taskControlMap true
    (info.getBarrierProducers barrierIdx).elements ∅
  return info.removeProducers barrierIdx producersToRemove

def removeRedundantConsumers (taskControlMap : TaskControlMap) (info : BarrierInfo Queue)
    (barrierIdx : Nat) : Except ControlFailure (BarrierInfo Queue) := do
  let consumersToRemove ← findRedundantDependencies info taskControlMap false
    (info.getBarrierConsumers barrierIdx).elements ∅
  return info.removeConsumers barrierIdx consumersToRemove

variable (taskQueueTypeMap : TaskQueueTypeMap Queue)

/-- `removeRedundantDependencies` for one block. -/
def removeRedundantOfBlock (considerTaskFifoDependency : Bool) (info : BarrierInfo Queue)
    (taskBlockIndex : Nat) : Except ControlFailure (BarrierInfo Queue) := do
  let taskControlMap ←
    info.buildTaskControlMap taskQueueTypeMap taskBlockIndex considerTaskFifoDependency
  let blockUpdateBarriers ←
    (info.getBarriersForTaskBlock taskBlockIndex true false .update).mapError .maps
  let info ← blockUpdateBarriers.foldlM (removeRedundantProducers taskControlMap) info
  let blockWaitBarriers ←
    (info.getBarriersForTaskBlock taskBlockIndex false true .wait).mapError .maps
  blockWaitBarriers.foldlM (removeRedundantConsumers taskControlMap) info

def removeRedundantDependencies (considerTaskFifoDependency : Bool) (info : BarrierInfo Queue) :
    Except ControlFailure (BarrierInfo Queue) :=
  (List.range info.getControlGraphBlockCount).foldlM
    (removeRedundantOfBlock taskQueueTypeMap considerTaskFifoDependency) info

/-! ### Explicit dependencies -/

def findExplicitDependencies [DecidableEq Queue] (info : BarrierInfo Queue)
    (dependencies : TaskSet) (type : Queue) : TaskSet :=
  dependencies.filter fun taskInd =>
    !info.isSyncPoint taskInd && info.allTaskOps[taskInd]?.any fun taskOp => type = taskOp.queueType

/-- (1) Consumers on the only queue of the producers. -/
def removeExplicitConsumers [DecidableEq Queue] (taskQueueTypeMap : TaskQueueTypeMap Queue)
    (info : BarrierInfo Queue) (barrierIdx : Nat) : Except ControlFailure (BarrierInfo Queue) := do
  match ← info.haveSameImplicitDependencyTaskQueueType taskQueueTypeMap
      (info.getBarrierProducers barrierIdx) with
  | some producerTaskQueueType =>
    return info.removeConsumers barrierIdx
      (findExplicitDependencies info (info.getBarrierConsumers barrierIdx) producerTaskQueueType)
  | none => return info

/-- (2) Producers on the only queue of the consumers, or all of them without consumers. -/
def removeExplicitProducers [DecidableEq Queue] (taskQueueTypeMap : TaskQueueTypeMap Queue)
    (info : BarrierInfo Queue) (barrierIdx : Nat) : Except ControlFailure (BarrierInfo Queue) := do
  let barrierProducers := info.getBarrierProducers barrierIdx
  let barrierConsumers := info.getBarrierConsumers barrierIdx
  match ← info.haveSameImplicitDependencyTaskQueueType taskQueueTypeMap barrierConsumers with
  | some consumerTaskQueueType =>
    return info.removeProducers barrierIdx
      (if barrierConsumers.isEmpty then
        barrierProducers.filter fun barProd => !info.isSyncPoint barProd
      else findExplicitDependencies info barrierProducers consumerTaskQueueType)
  | none =>
    if barrierConsumers.isEmpty then
      return info.removeProducers barrierIdx
        (barrierProducers.filter fun barProd => !info.isSyncPoint barProd)
    else return info

def removeExplicitOfBarrier [DecidableEq Queue] (taskQueueTypeMap : TaskQueueTypeMap Queue)
    (info : BarrierInfo Queue) (barrierIdx : Nat) : Except ControlFailure (BarrierInfo Queue) := do
  let info ← removeExplicitConsumers taskQueueTypeMap info barrierIdx
  let info ← removeExplicitProducers taskQueueTypeMap info barrierIdx
  let barrierConsumers := info.getBarrierConsumers barrierIdx
  let barrierProducers := info.getBarrierProducers barrierIdx
  if barrierConsumers.isEmpty ^^ barrierProducers.isEmpty then
    .error (.invalidOptimization (if barrierProducers.isEmpty then .update else .wait) barrierIdx)
  return info

def removeExplicitOfBlock [DecidableEq Queue] (taskQueueTypeMap : TaskQueueTypeMap Queue)
    (info : BarrierInfo Queue) (taskBlockIndex : Nat) :
    Except ControlFailure (BarrierInfo Queue) := do
  let blockUpdateBarriers ←
    (info.getBarriersForTaskBlock taskBlockIndex true false .update).mapError .maps
  blockUpdateBarriers.foldlM (removeExplicitOfBarrier taskQueueTypeMap) info

def removeExplicitDependencies [DecidableEq Queue] (taskQueueTypeMap : TaskQueueTypeMap Queue)
    (info : BarrierInfo Queue) : Except ControlFailure (BarrierInfo Queue) :=
  (List.range info.getControlGraphBlockCount).foldlM (removeExplicitOfBlock taskQueueTypeMap) info

/-! ### Merging -/

/-- Barriers are ordered by their largest producer, then by their index; a barrier without
producers comes first. -/
def releasedBefore (lhs rhs : Nat × Option Nat) : Bool :=
  if lhs.2 = rhs.2 then lhs.1 < rhs.1
  else match lhs.2, rhs.2 with
    | none, _ => true
    | some _, none => false
    | some maxProducer, some other => maxProducer < other

/-- The barriers with their largest producers, in the order in which they are visited. -/
def barIndAndMaxProdVec (info : BarrierInfo Queue) (blockUpdateBarriers : List Nat) :
    List (Nat × Option Nat) :=
  (blockUpdateBarriers.map fun barrierInd =>
    (barrierInd, (info.getBarrierProducers barrierInd).elements.max?)).insertionSort
      fun lhs rhs => releasedBefore rhs lhs = false

def allProducersAfterConsumers (producers consumers : TaskSet) : Bool :=
  consumers.elements.max?.getD 0 < producers.elements.min?.getD 0

def absorbBarrier (info : BarrierInfo Queue) (barrierInd nextBarrierInd : Nat) :
    BarrierInfo Queue :=
  let barrierProducersB := info.getBarrierProducers nextBarrierInd
  let barrierConsumersB := info.getBarrierConsumers nextBarrierInd
  ((info.addProducers barrierInd barrierProducersB).addConsumers barrierInd
    barrierConsumersB).resetBarrier nextBarrierInd

/-- Merge the later barriers of the order into one barrier, whose producers and consumers are
kept beside the maps. -/
def mergeLaterBarriers (taskQueueTypeMap : TaskQueueTypeMap Queue)
    (origWaitBarriersMap : List TaskSet) (barrierInd : Nat) :
    List Nat → TaskSet → TaskSet → BarrierInfo Queue → Except ControlFailure (BarrierInfo Queue)
  | [], _, _, info => .ok info
  | nextBarrierInd :: later, barrierProducersA, barrierConsumersA, info =>
    let barrierProducersB := info.getBarrierProducers nextBarrierInd
    let barrierConsumersB := info.getBarrierConsumers nextBarrierInd
    if barrierProducersB.isEmpty || barrierConsumersB.isEmpty then
      mergeLaterBarriers taskQueueTypeMap origWaitBarriersMap barrierInd later barrierProducersA
        barrierConsumersA info
    else if allProducersAfterConsumers barrierProducersB barrierConsumersA then .ok info
    else do
      if ← canBarriersBeMerged taskQueueTypeMap barrierProducersA barrierConsumersA
          barrierProducersB barrierConsumersB origWaitBarriersMap then
        mergeLaterBarriers taskQueueTypeMap origWaitBarriersMap barrierInd later
          (barrierProducersA.union barrierProducersB) (barrierConsumersA.union barrierConsumersB)
          (absorbBarrier info barrierInd nextBarrierInd)
      else
        mergeLaterBarriers taskQueueTypeMap origWaitBarriersMap barrierInd later barrierProducersA
          barrierConsumersA info

def mergeOrderedBarriers (taskQueueTypeMap : TaskQueueTypeMap Queue)
    (origWaitBarriersMap : List TaskSet) :
    List Nat → BarrierInfo Queue → Except ControlFailure (BarrierInfo Queue)
  | [], info => .ok info
  | barrierInd :: later, info => do
    let barrierProducersA := info.getBarrierProducers barrierInd
    let barrierConsumersA := info.getBarrierConsumers barrierInd
    let info ←
      if barrierProducersA.isEmpty || barrierConsumersA.isEmpty then .ok info
      else
        mergeLaterBarriers taskQueueTypeMap origWaitBarriersMap barrierInd later barrierProducersA
          barrierConsumersA info
    mergeOrderedBarriers taskQueueTypeMap origWaitBarriersMap later info

/-- `mergeBarriers` for one block. The barriers without producers are at the start. -/
def mergeBarriersOfBlock (origWaitBarriersMap : List TaskSet) (info : BarrierInfo Queue)
    (taskBlockIndex : Nat) : Except ControlFailure (BarrierInfo Queue) := do
  let blockUpdateBarriers ←
    (info.getBarriersForTaskBlock taskBlockIndex true false .update).mapError .maps
  let numOfBarriersWithNoProducers :=
    blockUpdateBarriers.countP fun barrierInd => (info.getBarrierProducers barrierInd).isEmpty
  let ordered := (barIndAndMaxProdVec info blockUpdateBarriers).map Prod.fst
  mergeOrderedBarriers taskQueueTypeMap origWaitBarriersMap
    (ordered.drop numOfBarriersWithNoProducers) info

def mergeBarriers (origWaitBarriersMap : List TaskSet) (info : BarrierInfo Queue) :
    Except ControlFailure (BarrierInfo Queue) :=
  (List.range info.getControlGraphBlockCount).foldlM
    (mergeBarriersOfBlock taskQueueTypeMap origWaitBarriersMap) info

/-! ### The pass -/

def dmaBarrierOptimization [DecidableEq Queue] (dmaQueueTypes : List Queue)
    (info : BarrierInfo Queue) : Except ControlFailure (BarrierInfo Queue) := do
  let taskQueueTypeMap := info.buildTaskQueueTypeMap dmaQueueTypes true
  let origWaitBarriersMap := info.getWaitBarriersMap
  let info ← removeRedundantDependencies taskQueueTypeMap true info
  let info ← removeExplicitDependencies taskQueueTypeMap info
  let info ← mergeBarriers taskQueueTypeMap origWaitBarriersMap info
  removeRedundantDependencies taskQueueTypeMap true info

/-! ### Removal of redundant dependencies -/

variable {Queue : Type} {queues : Queue → Bool} {info current after : BarrierInfo Queue}

/-- What every part of the pass keeps: the tasks, the index order, the order of the tasks under
barriers and queues, and barriers that have tasks on both sides or on none. -/
structure Keeps (queues : Queue → Bool) (info after : BarrierInfo Queue) : Prop where
  valid : after.Valid
  same : info.SameTasks after
  ordered : after.IndexOrdered
  precedes : ∀ {task child : Nat}, info.PrecedesWith queues task child →
    after.PrecedesWith queues task child
  balanced : ∀ {barrier : Nat}, after.HalfEmpty barrier → info.HalfEmpty barrier

theorem Keeps.refl (valid : info.Valid) (ordered : info.IndexOrdered) : Keeps queues info info :=
  ⟨valid, SameTasks.refl info, ordered, id, id⟩

theorem Keeps.trans (one : Keeps queues info current) (two : Keeps queues current after) :
    Keeps queues info after :=
  ⟨two.valid, one.same.trans two.same, two.ordered, fun path => two.precedes (one.precedes path),
    fun half => one.balanced (two.balanced half)⟩

/-- A part of the pass that only removes links. -/
structure Removes (queues : Queue → Bool) (info after : BarrierInfo Queue) : Prop
    extends Keeps queues info after where
  subset : ∀ (side : Side) {barrier task : Nat}, (after.table side).Linked barrier task →
    (info.table side).Linked barrier task

theorem Removes.refl (valid : info.Valid) (ordered : info.IndexOrdered) :
    Removes queues info info :=
  ⟨Keeps.refl valid ordered, fun _ => id⟩

theorem Removes.trans (one : Removes queues info current) (two : Removes queues current after) :
    Removes queues info after :=
  ⟨one.toKeeps.trans two.toKeeps, fun side _ _ linked => one.subset side (two.subset side linked)⟩

theorem Removes.controls (removes : Removes queues info after) {task child : Nat}
    (controls : after.Controls task child) : info.Controls task child := by
  obtain ⟨barrier, updated, waited⟩ := controls
  exact ⟨barrier, removes.subset .update updated, removes.subset .wait waited⟩

theorem Removes.respects (removes : Removes queues info after) (respects : info.RespectsSplit) :
    after.RespectsSplit := by
  intro split task child controls
  rw [removes.same.blockSize]
  rw [removes.same.syncTasksIds] at split
  exact respects split (removes.controls controls)

/-! ### Links of one barrier -/

structure Unlinks (side : Side) (barrier : Nat) (gone : Nat → Prop)
    (info after : BarrierInfo Queue) : Prop where
  valid : after.Valid
  same : info.SameTasks after
  linked : ∀ other row task, (after.table other).Linked row task ↔
    (info.table other).Linked row task ∧ ¬ (other = side ∧ row = barrier ∧ gone task)

variable {side : Side} {barrier : Nat} {gone : Nat → Prop}

theorem Unlinks.subset (unlinks : Unlinks side barrier gone info after) (other : Side)
    {row task : Nat} (linked : (after.table other).Linked row task) :
    (info.table other).Linked row task :=
  ((unlinks.linked other row task).mp linked).1

theorem unlinkAll_unlinks (valid : info.Valid) (side : Side) (barrier : Nat) (tasks : TaskSet) :
    Unlinks side barrier (· ∈ tasks) info
      (info.modifyTable side (·.unlinkAll barrier tasks.elements)) := by
  refine ⟨valid.modifyTable (IncidenceTable.Mirrored.unlinkAll (valid.mirrored side) _)
      (length_rows_unlinkAll _) (length_columns_unlinkAll _),
    ⟨allTaskOps_modifyTable .., controlGraphBlockSize_modifyTable .., syncTasksIds_modifyTable ..,
      getNumOfVirtualBarriers_modifyTable (length_rows_unlinkAll _)⟩,
    fun other row task => ?_⟩
  by_cases same : other = side
  · rw [same, table_modifyTable_self, linked_unlinkAll]
    simp [mem_elements]
  · rw [table_modifyTable_ne same]
    exact (and_iff_left fun both => same both.1).symm

theorem Unlinks.congr {other : Nat → Prop} (unlinks : Unlinks side barrier gone info after)
    (same : ∀ task, (info.table side).Linked barrier task → (gone task ↔ other task)) :
    Unlinks side barrier other info after := by
  refine ⟨unlinks.valid, unlinks.same, fun table row task => (unlinks.linked table row task).trans
    (and_congr_right fun linked => not_congr (and_congr_right fun sameSide =>
      and_congr_right fun sameRow => ?_))⟩
  rw [sameSide, sameRow] at linked
  exact same task linked

theorem Unlinks.refl (valid : info.Valid) (side : Side) (barrier : Nat) :
    Unlinks side barrier (fun _ => False) info info :=
  ⟨valid, SameTasks.refl info, fun _ _ _ => (and_iff_left fun both => both.2.2).symm⟩

/-! ### Redundant links -/

/-- The second task of a barrier implies the first one: a later producer, or an earlier
consumer. -/
def Implies (queues : Queue → Bool) (info : BarrierInfo Queue) : Side → Nat → Nat → Prop
  | .update, task, other => info.PrecedesWith queues task other
  | .wait, task, other => info.PrecedesWith queues other task

/-- The state after some links were removed that others imply. -/
structure Thinned (queues : Queue → Bool) (info current : BarrierInfo Queue) : Prop where
  valid : current.Valid
  same : info.SameTasks current
  subset : ∀ (side : Side) {barrier task : Nat}, (current.table side).Linked barrier task →
    (info.table side).Linked barrier task
  implied : ∀ (side : Side) {barrier task : Nat}, (info.table side).Linked barrier task →
    (current.table side).Linked barrier task ∨
      ∃ other, Implies queues info side task other ∧ (info.table side).Linked barrier other

theorem Thinned.refl (valid : info.Valid) : Thinned queues info info :=
  ⟨valid, SameTasks.refl info, fun _ => id, fun _ _ _ => .inl⟩

theorem distance_lt_of_implies (valid : info.Valid) (ordered : info.IndexOrdered) {task other : Nat}
    (implies : Implies queues info side task other)
    (linked : (info.table side).Linked barrier other) :
    info.distance side other < info.distance side task := by
  have bound := valid.task_lt side linked
  cases side with
  | update =>
    have less : task < other := ordered.lt_of_precedesWith implies
    unfold distance
    dsimp only
    omega
  | wait => exact ordered.lt_of_precedesWith implies

section

variable (thinned : Thinned queues info current) (valid : info.Valid) (ordered : info.IndexOrdered)
include thinned valid ordered

/-- The last producer and the first consumer of a barrier stay. -/
theorem Thinned.exists_linked {task : Nat} (linked : (info.table side).Linked barrier task) :
    ∃ other, (current.table side).Linked barrier other := by
  induction far : info.distance side task using Nat.strong_induction_on generalizing task with
  | _ far ih =>
    rcases thinned.implied side linked with stays | ⟨other, implies, otherLinked⟩
    · exact ⟨task, stays⟩
    · have closer := distance_lt_of_implies valid ordered implies otherLinked
      exact ih _ (far ▸ closer) otherLinked rfl

theorem Thinned.removes : Removes queues info current := by
  have existsIff : ∀ side barrier, (∃ task, (current.table side).Linked barrier task) ↔
      ∃ task, (info.table side).Linked barrier task := fun side barrier =>
    ⟨fun ⟨task, linked⟩ => ⟨task, thinned.subset side linked⟩,
      fun ⟨_, linked⟩ => thinned.exists_linked valid ordered linked⟩
  have bypassed : Reachability.Bypassed (info.OrderedWith queues)
      (current.OrderedWith queues) := by
    rintro task child (⟨barrier, updated, waited⟩ | fifo)
    · rcases thinned.implied .update updated with producer | ⟨other, implies, linked⟩
      · rcases thinned.implied .wait waited with consumer | ⟨other, implies, linked⟩
        · exact .inl (.inl ⟨barrier, producer, consumer⟩)
        · exact .inr ⟨other, .single (.inl ⟨barrier, updated, linked⟩), implies⟩
      · exact .inr ⟨other, implies, .single (.inl ⟨barrier, linked, waited⟩)⟩
    · exact .inl (.inr (fifoOrder_congr thinned.same.allTaskOps ▸ fifo))
  refine ⟨⟨thinned.valid, thinned.same, fun barrier producer consumer updated waited =>
    ordered barrier _ _ (thinned.subset .update updated) (thinned.subset .wait waited),
    fun path => Reachability.transGen_kept (ordered.increasing queues) bypassed path,
    fun half balanced => half ?_⟩, thinned.subset⟩
  exact (existsIff .update _).trans (balanced.trans (existsIff .wait _).symm)

end

/-! ### One block of redundant dependencies -/

section Block

variable {taskControlMap : TaskControlMap} {lower upper : Nat}

/-- A task of a barrier that another one of the barrier implies. -/
def Implied (queues : Queue → Bool) (info : BarrierInfo Queue) (side : Side)
    (dependencies : List Nat) (task : Nat) : Prop :=
  ∃ other ∈ dependencies, Implies queues info side task other

/-- The flag of the search. -/
def isProducer : Side → Bool
  | .update => true
  | .wait => false

variable {dependencies : List Nat}

section

variable (sound : taskControlMap.Sound info queues lower upper)
include sound

theorem findRedundantPair_spec (side : Side) {taskIndex nextIndex : Nat}
    (own : taskIndex ∈ dependencies) (next : nextIndex ∈ dependencies) : Run.Preserves
      (fun found : TaskSet => ∀ task ∈ found, Implied queues info side dependencies task)
      fun found => findRedundantPair current taskControlMap (isProducer side) taskIndex found
        nextIndex := by
  intro found last before res
  unfold findRedundantPair at res
  split at res
  · cases res
    exact before
  · obtain ⟨pathExists, checked, res⟩ := bind_ok res
    cases pathExists with
    | false =>
      cases res
      exact before
    | true =>
      cases res
      have precedes := controlPathExists_sound sound checked
      intro task mem
      rcases mem_insert.mp mem with old | new
      · exact before task old
      · cases side with
        | update => exact ⟨nextIndex, next, new ▸ precedes⟩
        | wait => exact ⟨taskIndex, own, new ▸ precedes⟩

theorem findRedundantDependencies_spec (side : Side) : ∀ {rest : List Nat} {found last : TaskSet},
      (∀ task ∈ rest, task ∈ dependencies) →
      (∀ task ∈ found, Implied queues info side dependencies task) →
      findRedundantDependencies current taskControlMap (isProducer side) rest found = .ok last →
      ∀ task ∈ last, Implied queues info side dependencies task := by
  intro rest
  induction rest with
  | nil =>
    intro found last _ before res
    cases res
    exact before
  | cons taskIndex later ih =>
    intro found last inside before res
    rw [forall_mem_cons] at inside
    unfold findRedundantDependencies at res
    split at res
    · exact ih inside.2 before res
    · obtain ⟨middle, pairs, res⟩ := bind_ok res
      refine ih inside.2 ?_ res
      exact Run.Preserves.foldlM later (fun next mem =>
        findRedundantPair_spec sound side inside.1 (inside.2 next mem)) found middle before pairs

theorem findRedundantDependencies_ok (producer : Bool) : ∀ {rest : List Nat} (found : TaskSet),
      (∀ task ∈ rest, lower ≤ task ∧ task ≤ upper) →
      ∃ last, findRedundantDependencies current taskControlMap producer rest found = .ok last := by
  intro rest
  induction rest with
  | nil => exact fun found _ => ⟨found, rfl⟩
  | cons taskIndex later ih =>
    intro found inside
    rw [forall_mem_cons] at inside
    have pairs : ∃ middle, later.foldlM
        (findRedundantPair current taskControlMap producer taskIndex) found = .ok middle := by
      refine (foldlM_ok (fun _ => True) later (fun next mem found _ => ?_) found
        trivial).imp fun _ => And.left
      unfold findRedundantPair
      split
      · exact ⟨found, rfl, trivial⟩
      · obtain ⟨pathExists, checked⟩ :=
          controlPathExists_ok sound inside.1 (inside.2 next mem)
        rw [checked]
        exact ⟨_, rfl, trivial⟩
    obtain ⟨middle, collected⟩ := pairs
    unfold findRedundantDependencies
    split
    · exact ih found inside.2
    · rw [collected]
      exact ih middle inside.2

end

/-- Links of one barrier are removed that others of the barrier imply. -/
theorem Thinned.unlinkAll (thinned : Thinned queues info current) (side : Side) (barrier : Nat)
    {tasks : TaskSet} (each : ∀ task ∈ tasks,
      Implied queues info side ((current.table side).row barrier).elements task) :
    Thinned queues info (current.modifyTable side (·.unlinkAll barrier tasks.elements)) := by
  have unlinks := unlinkAll_unlinks thinned.valid side barrier tasks
  refine ⟨unlinks.valid, thinned.same.trans unlinks.same,
    fun other row task link => thinned.subset other (unlinks.subset other link),
    fun other row task link => ?_⟩
  rcases thinned.implied other link with stays | implied
  · by_cases removed : other = side ∧ row = barrier ∧ task ∈ tasks
    · obtain ⟨rfl, rfl, mem⟩ := removed
      obtain ⟨last, lastMember, implies⟩ := each task mem
      exact .inr ⟨last, implies, thinned.subset other lastMember⟩
    · exact .inl ((unlinks.linked other row task).mpr ⟨stays, removed⟩)
  · exact .inr implied

section

variable (sound : taskControlMap.Sound info queues lower upper) (barrierIdx : Nat)
include sound barrierIdx

theorem removeRedundantProducers_thinned : Run.Preserves (Thinned queues info)
      fun current => removeRedundantProducers taskControlMap current barrierIdx := by
  intro current last thinned res
  obtain ⟨tasks, found, res⟩ := bind_ok res
  cases res
  exact thinned.unlinkAll .update barrierIdx (findRedundantDependencies_spec sound .update
    (fun _ => id) (fun _ mem => absurd mem not_mem_empty) found)

theorem removeRedundantConsumers_thinned : Run.Preserves (Thinned queues info)
      fun current => removeRedundantConsumers taskControlMap current barrierIdx := by
  intro current last thinned res
  obtain ⟨tasks, found, res⟩ := bind_ok res
  cases res
  exact thinned.unlinkAll .wait barrierIdx (findRedundantDependencies_spec sound .wait
    (fun _ => id) (fun _ mem => absurd mem not_mem_empty) found)

end

end Block

section Queues

variable [DecidableEq Queue] {taskQueueTypeMap : TaskQueueTypeMap Queue}
  {dmaQueueTypes : List Queue}

/-- The queues with FIFO order. -/
def isDMAQueue (dmaQueueTypes : List Queue) (queue : Queue) : Bool := decide (queue ∈ dmaQueueTypes)

section

variable {considerTaskFifoDependency : Bool} (valid : info.Valid) (ordered : info.IndexOrdered)
  (describes : taskQueueTypeMap.Describes info dmaQueueTypes)
include valid ordered describes

theorem removeRedundantOfBlock_removes {taskBlockIndex : Nat}
    (res : removeRedundantOfBlock taskQueueTypeMap considerTaskFifoDependency info
      taskBlockIndex = .ok after) : Removes (isDMAQueue dmaQueueTypes) info after := by
  obtain ⟨taskControlMap, built, res⟩ := bind_ok res
  obtain ⟨lower, upper, _, sound⟩ := buildTaskControlMap_sound valid describes
    (fun queue mem => decide_eq_true mem) built
  obtain ⟨updates, _, res⟩ := bind_ok res
  obtain ⟨middle, producers, res⟩ := bind_ok res
  obtain ⟨waits, _, consumers⟩ := bind_ok res
  have first := Run.Preserves.foldlM updates
    (fun barrier _ => removeRedundantProducers_thinned sound barrier) info middle
    (Thinned.refl valid) producers
  have second := Run.Preserves.foldlM waits
    (fun barrier _ => removeRedundantConsumers_thinned sound barrier) middle after first consumers
  exact second.removes valid ordered

theorem removeRedundantDependencies_removes
    (res : removeRedundantDependencies taskQueueTypeMap considerTaskFifoDependency info =
      .ok after) : Removes (isDMAQueue dmaQueueTypes) info after := by
  have each : ∀ block ∈ range info.getControlGraphBlockCount,
      Run.Preserves (Removes (isDMAQueue dmaQueueTypes) info) fun current =>
        removeRedundantOfBlock taskQueueTypeMap considerTaskFifoDependency current block :=
    fun block _ current last before res => before.trans (removeRedundantOfBlock_removes
      before.valid before.ordered (describes.of_same before.same) res)
  exact Run.Preserves.foldlM _ each info after (Removes.refl valid ordered) res

end

end Queues

end NpuPlugin.DMABarrierOptimization
