/-
This file models `ReduceBarrierDependenciesPass`. It adds a barrier between neighbours of a DMA
queue that have none, runs `optimizeBarriers`, and removes the added barriers that are left. The
order of the tasks under barriers and queues is kept: the optimization leaves the one link of a
temporary barrier on both sides, or merges it into one with the same single producer.
-/

import NpuPlugin.BarrierInfo.TaskControl

namespace NpuPlugin

namespace BarrierInfo

variable {Queue : Type} (info : BarrierInfo Queue)

/-- `hasBarrierDependency`: the first update barrier of the first task for which the second one
waits. -/
def hasBarrierDependency (taskOneIdx taskTwoIdx : Nat) : Option Nat :=
  (info.getUpdateBarriers taskOneIdx).elements.find? fun barrier =>
    decide (barrier ∈ info.getWaitBarriers taskTwoIdx)

end BarrierInfo

namespace ReduceBarrierDependencies

open BarrierInfo BarrierLegalization

variable {Queue : Type}

def getNewBarrier (info : BarrierInfo Queue) (prevIndex currentIndex : Nat) : BarrierInfo Queue :=
  let newBarrierIdn := info.getNumOfVirtualBarriers
  (info.addNewBarrier.addProducer newBarrierIdn prevIndex).addConsumer newBarrierIdn currentIndex

/-- Whether one block has both tasks. -/
def inSameTaskBlock (blockRange : List (Nat × Nat)) (task1 task2 : Nat) : Bool :=
  blockRange.any fun range =>
    (range.1 ≤ task1 && task1 ≤ range.2) && (range.1 ≤ task2 && task2 ≤ range.2)

def blockRanges (info : BarrierInfo Queue) : Except Failure (List (Nat × Nat)) :=
  (List.range info.getControlGraphBlockCount).mapM fun blockIdx =>
    info.getControlGraphBlockTaskRange blockIdx true true

/-- The pairs of consecutive tasks. -/
def consecutive : List Nat → List (Nat × Nat)
  | taskOne :: taskTwo :: rest => (taskOne, taskTwo) :: consecutive (taskTwo :: rest)
  | _ => []

/-- The neighbours of each DMA queue. -/
def fifoNeighbours [LinearOrder Queue] (isDMA : Queue → Bool) (info : BarrierInfo Queue) :
    List (Nat × Nat) :=
  ((getTaskOpQueues info).toList.filter fun entry => isDMA entry.1).flatMap
    fun entry => consecutive entry.2

/-- Step 1 for two neighbours. The state has the maps and `addedDeps`. -/
def addTemporary (blockRange : List (Nat × Nat))
    (state : BarrierInfo Queue × List (Nat × Nat × Nat)) (pair : Nat × Nat) :
    BarrierInfo Queue × List (Nat × Nat × Nat) :=
  let (info, addedDeps) := state
  let (taskOne, taskTwo) := pair
  if (info.hasBarrierDependency taskOne taskTwo).isNone &&
      inSameTaskBlock blockRange taskOne taskTwo then
    (getNewBarrier info taskOne taskTwo,
      addedDeps ++ [(info.getNumOfVirtualBarriers, taskOne, taskTwo)])
  else (info, addedDeps)

/-- Step 1. -/
def addTemporaries [LinearOrder Queue] (isDMA : Queue → Bool) (blockRange : List (Nat × Nat))
    (info : BarrierInfo Queue) : BarrierInfo Queue × List (Nat × Nat × Nat) :=
  (fifoNeighbours isDMA info).foldl (addTemporary blockRange) (info, [])

/-- Step 3 for one of the added dependencies. -/
def removeTemporary (info : BarrierInfo Queue) (dep : Nat × Nat × Nat) : BarrierInfo Queue :=
  let (concernedBarrier, prevIdx, currIdx) := dep
  if info.hasBarrierDependency prevIdx currIdx = some concernedBarrier then
    (info.removeProducer concernedBarrier prevIdx).removeConsumer concernedBarrier currIdx
  else info

/-- `safeRunOnFunc`, up to the update of the operations. -/
def reduceBarrierDependencies [LinearOrder Queue] (isDMA : Queue → Bool) (maxVariantCount : Nat)
    (info : BarrierInfo Queue) : Except Failure (BarrierInfo Queue) := do
  let blockRange ← blockRanges info
  let (info, addedDeps) := addTemporaries isDMA blockRange info
  let info ← info.optimizeBarriers false maxVariantCount
  return addedDeps.foldl removeTemporary info

end ReduceBarrierDependencies

end NpuPlugin

namespace NpuPlugin.ReduceBarrierDependencies

open BarrierInfo BarrierLegalization IncidenceTable List Prod Run

variable {Queue : Type} {info current : BarrierInfo Queue}

/-! ### Neighbours of a queue -/

/-- The second task is the next one on the DMA queue of the first one. -/
def FifoNeighbour (info : BarrierInfo Queue) (isDMA : Queue → Bool) (task next : Nat) : Prop :=
  ∃ queue, isDMA queue = true ∧ queueOf info task = some queue ∧
    queueOf info next = some queue ∧ task < next ∧
    ∀ other, queueOf info other = some queue → task < other → next ≤ other

variable {isDMA : Queue → Bool} {task next : Nat} {pair : Nat × Nat}

theorem FifoNeighbour.fifoOrder (neighbour : FifoNeighbour info isDMA task next) :
    info.FifoOrder isDMA task next := by
  obtain ⟨queue, counts, own, other, less, _⟩ := neighbour
  exact ⟨less, queue, counts, own, other⟩

theorem FifoNeighbour.unique {other : Nat} (neighbour : FifoNeighbour info isDMA task next)
    (another : FifoNeighbour info isDMA task other) : next = other := by
  obtain ⟨queue, _, own, ownNext, less, least⟩ := neighbour
  obtain ⟨queue', _, own', ownOther, less', least'⟩ := another
  obtain rfl : queue = queue' := Option.some_inj.mp (own.symm.trans own')
  exact le_antisymm (least other ownOther less') (least' next ownNext less)

theorem of_mem_consecutive {tasks : List Nat} (sorted : tasks.Pairwise (· < ·))
    (mem : pair ∈ consecutive tasks) :
    pair.1 ∈ tasks ∧ pair.2 ∈ tasks ∧ pair.1 < pair.2 ∧
      ∀ other ∈ tasks, pair.1 < other → pair.2 ≤ other := by
  induction tasks with
  | nil => exact absurd mem not_mem_nil
  | cons taskOne rest ih =>
    obtain ⟨first, restSorted⟩ := pairwise_cons.mp sorted
    cases rest with
    | nil => exact absurd mem not_mem_nil
    | cons taskTwo later =>
      rcases mem_cons.mp mem with rfl | inRest
      · refine ⟨mem_cons_self, mem_cons_of_mem _ mem_cons_self,
          first taskTwo mem_cons_self, fun other inTasks above => ?_⟩
        rcases mem_cons.mp inTasks with same | after
        · exact absurd above (same ▸ lt_irrefl _)
        · rcases mem_cons.mp after with same | beyond
          · exact same.symm.le
          · exact ((pairwise_cons.mp restSorted).1 other beyond).le
      · obtain ⟨one, two, less, least⟩ := ih restSorted inRest
        refine ⟨mem_cons_of_mem _ one, mem_cons_of_mem _ two, less,
          fun other inTasks above => ?_⟩
        rcases mem_cons.mp inTasks with same | after
        · exact absurd (first pair.1 one) (le_of_lt (same ▸ above)).not_gt
        · exact least other after above

theorem of_mem_fifoNeighbours [LinearOrder Queue] (mem : pair ∈ fifoNeighbours isDMA info) :
    FifoNeighbour info isDMA pair.1 pair.2 := by
  obtain ⟨entry, inQueues, inPairs⟩ := mem_flatMap.mp mem
  obtain ⟨listed, counts⟩ := mem_filter.mp inQueues
  have tasks := (fronts_getTaskOpQueues info).left entry listed
  have sorted : entry.2.Pairwise (· < ·) := tasks ▸ waitingTasks_pairwise info [] entry.1
  have onQueue : ∀ task, task ∈ entry.2 ↔ queueOf info task = some entry.1 := by
    intro task
    rw [tasks, mem_waitingTasks, and_iff_left not_mem_nil]
  obtain ⟨one, two, less, least⟩ := of_mem_consecutive sorted inPairs
  exact ⟨entry.1, counts, (onQueue _).mp one, (onQueue _).mp two, less,
    fun other own => least other ((onQueue other).mpr own)⟩

/-! ### Common barriers -/

variable {child barrier : Nat}

section

variable (valid : info.Valid)
include valid

theorem hasBarrierDependency_some (found : info.hasBarrierDependency task child = some barrier) :
    info.updates.Linked barrier task ∧ info.waits.Linked barrier child := by
  have mem := mem_of_find?_eq_some found
  have test := find?_some found
  exact ⟨(valid.mirrored .update barrier task).mp mem,
    (valid.mirrored .wait barrier child).mp (of_decide_eq_true test)⟩

theorem hasBarrierDependency_isSome (updated : info.updates.Linked barrier task)
    (waited : info.waits.Linked barrier child) :
    ∃ first, info.hasBarrierDependency task child = some first := by
  refine Option.isSome_iff_exists.mp (find?_isSome.mpr ⟨barrier,
    (valid.mirrored .update barrier task).mpr updated, decide_eq_true ?_⟩)
  exact (valid.mirrored .wait barrier child).mpr waited

theorem hasBarrierDependency_none (none : (info.hasBarrierDependency task child).isNone = true) :
    ¬ info.Controls task child := by
  rintro ⟨barrier, updated, waited⟩
  obtain ⟨first, found⟩ := hasBarrierDependency_isSome valid updated waited
  rw [found] at none
  exact Bool.false_ne_true none

/-! ### A new barrier -/

def depTask (side : Side) (dep : Nat × Nat × Nat) : Nat :=
  match side with
  | .update => dep.2.1
  | .wait => dep.2.2

theorem getNewBarrier_valid (taskBound : task < info.getNumOfTasks)
    (nextBound : next < info.getNumOfTasks) : (getNewBarrier info task next).Valid := by
  have count : info.getNumOfVirtualBarriers < info.addNewBarrier.getNumOfVirtualBarriers := by
    unfold getNumOfVirtualBarriers
    rw [show info.addNewBarrier.updates = info.updates.addRow from rfl, length_rows_addRow]
    exact Nat.lt_succ_self _
  have produced := valid.addNewBarrier.addProducer count taskBound
  refine produced.addConsumer ?_ nextBound
  unfold addProducer
  rw [getNumOfVirtualBarriers_modifyTable length_rows_link]
  exact count

end

theorem getNumOfVirtualBarriers_getNewBarrier (task next : Nat) :
    (getNewBarrier info task next).getNumOfVirtualBarriers = info.getNumOfVirtualBarriers + 1 :=
  length_rows_link.trans length_rows_addRow

theorem linked_getNewBarrier (valid : info.Valid) {side : Side} {other : Nat} :
    ((getNewBarrier info task next).table side).Linked barrier other ↔
      (info.table side).Linked barrier other ∨
        info.getNumOfVirtualBarriers = barrier ∧
          depTask side (info.getNumOfVirtualBarriers, task, next) = other := by
  have added : ((getNewBarrier info task next).table side).Linked barrier other ↔
      (info.table side).addRow.Linked barrier other ∨ barrier = info.getNumOfVirtualBarriers ∧
        other = depTask side (info.getNumOfVirtualBarriers, task, next) := by
    have rows : info.getNumOfVirtualBarriers < (info.table side).addRow.rows.length := by
      rw [length_rows_addRow, valid.barriers side]
      exact Nat.lt_succ_self _
    cases side with
    | update => exact linked_link rows
    | wait => exact linked_link rows
  rw [added, linked_addRow, eq_comm, @eq_comm _ other]

/-! ### Step 1 -/

/-- The state after some neighbours: each added dependency is a barrier of its own between
neighbours that had none. -/
structure Added (isDMA : Queue → Bool) (blockRange : List (Nat × Nat))
    (info : BarrierInfo Queue) (current : BarrierInfo Queue)
    (addedDeps : List (Nat × Nat × Nat)) : Prop where
  valid : current.Valid
  allTaskOps : current.allTaskOps = info.allTaskOps
  blockSize : current.controlGraphBlockSize = info.controlGraphBlockSize
  syncTasksIds : current.syncTasksIds = info.syncTasksIds
  count : current.getNumOfVirtualBarriers = info.getNumOfVirtualBarriers + addedDeps.length
  numbered : addedDeps.map Prod.fst = List.range' info.getNumOfVirtualBarriers addedDeps.length
  neighbours : ∀ dep ∈ addedDeps, FifoNeighbour info isDMA dep.2.1 dep.2.2
  sameBlock : ∀ dep ∈ addedDeps, inSameTaskBlock blockRange dep.2.1 dep.2.2 = true
  fresh : ∀ dep ∈ addedDeps, ¬ info.Controls dep.2.1 dep.2.2
  producers : addedDeps.Pairwise fun dep other => dep.2.1 ≠ other.2.1
  linked : ∀ side barrier task, (current.table side).Linked barrier task ↔
    (info.table side).Linked barrier task ∨
      ∃ dep ∈ addedDeps, dep.1 = barrier ∧ depTask side dep = task

theorem added_nil (isDMA : Queue → Bool) (blockRange : List (Nat × Nat)) (valid : info.Valid) :
    Added isDMA blockRange info info [] :=
  ⟨valid, rfl, rfl, rfl, rfl, rfl, forall_mem_nil _,
    forall_mem_nil _, forall_mem_nil _,
    List.Pairwise.nil, fun _ _ _ => (or_iff_left fun ⟨_, no, _⟩ => absurd no not_mem_nil).symm⟩

section Step

variable {isDMA : Queue → Bool} {blockRange : List (Nat × Nat)}
  {addedDeps : List (Nat × Nat × Nat)}

section

variable (added : Added isDMA blockRange info current addedDeps)
include added

theorem Added.controls_dep {dep : Nat × Nat × Nat} (mem : dep ∈ addedDeps) :
    current.Controls dep.2.1 dep.2.2 :=
  ⟨dep.1, (added.linked .update dep.1 _).mpr (.inr ⟨dep, mem, rfl, rfl⟩),
    (added.linked .wait dep.1 _).mpr (.inr ⟨dep, mem, rfl, rfl⟩)⟩

theorem Added.controls_old (controls : info.Controls task child) : current.Controls task child := by
  obtain ⟨barrier, updated, waited⟩ := controls
  exact ⟨barrier, (added.linked .update barrier task).mpr (.inl updated),
    (added.linked .wait barrier child).mpr (.inl waited)⟩

theorem Added.step (neighbour : FifoNeighbour info isDMA pair.1 pair.2) :
    Added isDMA blockRange info (addTemporary blockRange (current, addedDeps) pair).1
      (addTemporary blockRange (current, addedDeps) pair).2 := by
  obtain ⟨taskOne, taskTwo⟩ := pair
  unfold addTemporary
  dsimp only at neighbour ⊢
  split
  swap
  · exact added
  rename_i separate
  obtain ⟨none, sameBlock⟩ := Bool.and_eq_true_iff.mp separate
  have apart := hasBarrierDependency_none added.valid none
  have tasks : current.getNumOfTasks = info.getNumOfTasks := congrArg length added.allTaskOps
  have each : ∀ dep ∈ addedDeps ++ [(current.getNumOfVirtualBarriers, taskOne, taskTwo)],
      dep ∈ addedDeps ∨ dep = (current.getNumOfVirtualBarriers, taskOne, taskTwo) :=
    fun dep mem => (mem_append.mp mem).imp_right mem_singleton.mp
  obtain ⟨queue, counts, own, ownNext, less, least⟩ := neighbour
  refine ⟨getNewBarrier_valid added.valid (tasks ▸ lt_of_queueOf own)
    (tasks ▸ lt_of_queueOf ownNext),
    added.allTaskOps, added.blockSize, added.syncTasksIds, ?_, ?_, fun dep mem => ?_,
    fun dep mem => ?_, fun dep mem => ?_, ?_, fun side barrier task => ?_⟩
  · rw [getNumOfVirtualBarriers_getNewBarrier, added.count, length_append, ← Nat.add_assoc]
    rfl
  · rw [map_append, length_append, added.numbered, added.count]
    exact range'_append_1.symm ▸ rfl
  · rcases each dep mem with old | rfl
    · exact added.neighbours dep old
    · exact ⟨queue, counts, own, ownNext, less, least⟩
  · rcases each dep mem with old | rfl
    · exact added.sameBlock dep old
    · exact sameBlock
  · rcases each dep mem with old | rfl
    · exact added.fresh dep old
    · exact fun controls => apart (added.controls_old controls)
  · refine pairwise_append.mpr ⟨added.producers, pairwise_singleton _ _, ?_⟩
    intro dep old last single same
    rw [mem_singleton.mp single] at same
    -- an earlier dependency of the task leads to the same neighbour
    have next : dep.2.2 = taskTwo := by
      have before := added.neighbours dep old
      rw [show dep.2.1 = taskOne from same] at before
      exact before.unique ⟨queue, counts, own, ownNext, less, least⟩
    have controls := added.controls_dep old
    rw [next, show dep.2.1 = taskOne from same] at controls
    exact apart controls
  · rw [linked_getNewBarrier added.valid, added.linked, or_assoc]
    refine or_congr_right ?_
    simp only [mem_append, mem_singleton, or_and_right, exists_or, exists_eq_left]

end

theorem addTemporaries_added [LinearOrder Queue] (isDMA : Queue → Bool)
    (blockRange : List (Nat × Nat)) (valid : info.Valid) :
    Added isDMA blockRange info (addTemporaries isDMA blockRange info).1
      (addTemporaries isDMA blockRange info).2 := by
  refine foldlRecOn (motive := fun state : BarrierInfo Queue × List (Nat × Nat × Nat) =>
    Added isDMA blockRange info state.1 state.2) (fifoNeighbours isDMA info)
    (addTemporary blockRange) (added_nil isDMA blockRange valid) ?_
  exact fun state added pair mem => added.step (of_mem_fifoNeighbours mem)

/-! ### What the added barriers change -/

section

variable (added : Added isDMA blockRange info current addedDeps) (valid : info.Valid)
include added valid

theorem Added.controls {task child : Nat} (controls : current.Controls task child) :
    info.Controls task child ∨ ∃ dep ∈ addedDeps, dep.2.1 = task ∧ dep.2.2 = child := by
  obtain ⟨barrier, updated, waited⟩ := controls
  have outside : ∀ dep ∈ addedDeps, ∀ side other,
      ¬ (info.table side).Linked dep.1 other := by
    intro dep mem side other linked
    have bound := valid.barrier_lt side linked
    have listed : dep.1 ∈ addedDeps.map Prod.fst := mem_map_of_mem mem
    rw [added.numbered, mem_range'_1] at listed
    omega
  have single : ∀ dep ∈ addedDeps, ∀ other ∈ addedDeps, dep.1 = other.1 → dep = other := by
    have nodup : (addedDeps.map Prod.fst).Nodup := added.numbered ▸ nodup_range'
    exact fun dep mem other otherMember => inj_on_of_nodup_map nodup mem otherMember
  rcases (added.linked .update barrier task).mp updated with old | ⟨dep, mem, rfl, producer⟩
  · rcases (added.linked .wait barrier child).mp waited with oldWait | ⟨dep, mem, rfl, _⟩
    · exact .inl ⟨barrier, old, oldWait⟩
    · exact absurd old (outside dep mem .update task)
  · rcases (added.linked .wait dep.1 child).mp waited with oldWait |
      ⟨other, memberOther, same, consumer⟩
    · exact absurd oldWait (outside dep mem .wait child)
    · obtain rfl := single other memberOther dep mem same
      exact .inr ⟨other, mem, producer, consumer⟩

theorem Added.indexOrdered (ordered : info.IndexOrdered) : current.IndexOrdered := by
  refine indexOrdered_iff.mpr fun controls => ?_
  rcases added.controls valid controls with old | ⟨dep, mem, rfl, rfl⟩
  · exact ordered.lt old
  · exact (added.neighbours dep mem).fifoOrder.1

end

end Step

/-! ### The order that is kept -/

variable {Queue : Type} {info current : BarrierInfo Queue} {isDMA : Queue → Bool}
  {blockRange : List (Nat × Nat)} {addedDeps : List (Nat × Nat × Nat)}

/-! ### Temporary barriers during the optimization -/

/-- What the optimization makes of an added dependency: at most its own link is left, and another
barrier that orders its tasks has no other producer. -/
structure Temporary (dep : Nat × Nat × Nat) (current : BarrierInfo Queue) : Prop where
  producer : ∀ task, current.updates.Linked dep.1 task → task = dep.2.1
  consumer : ∀ task, current.waits.Linked dep.1 task → task = dep.2.2
  balanced : ¬ current.HalfEmpty dep.1
  sole : ∀ barrier task, current.updates.Linked barrier dep.2.1 →
    current.waits.Linked barrier dep.2.2 → current.updates.Linked barrier task → task = dep.2.1
  unique : current.updates.Linked dep.1 dep.2.1 → ∀ barrier,
    current.updates.Linked barrier dep.2.1 → current.waits.Linked barrier dep.2.2 →
    barrier = dep.1

variable {dep other : Nat × Nat × Nat} {barrier : Nat}

section

variable (added : Added isDMA blockRange info current addedDeps)
include added

theorem Added.eq_of_barrier (mem : dep ∈ addedDeps) (otherMember : other ∈ addedDeps)
    (same : dep.1 = other.1) : dep = other := by
  have nodup : (addedDeps.map fst).Nodup := added.numbered ▸ nodup_range'
  exact inj_on_of_nodup_map nodup mem otherMember same

theorem Added.eq_of_producer (mem : dep ∈ addedDeps) (otherMember : other ∈ addedDeps)
    (same : dep.2.1 = other.2.1) : dep = other := by
  have nodup : (addedDeps.map fun dep => dep.2.1).Nodup := pairwise_map.mpr added.producers
  exact inj_on_of_nodup_map nodup mem otherMember same

theorem Added.barrier_ge (mem : dep ∈ addedDeps) : info.getNumOfVirtualBarriers ≤ dep.1 := by
  have listed : dep.1 ∈ addedDeps.map fst := mem_map_of_mem mem
  rw [added.numbered, mem_range'_1] at listed
  exact listed.1

theorem Added.exists_dep (lower : info.getNumOfVirtualBarriers ≤ barrier)
    (upper : barrier < current.getNumOfVirtualBarriers) : ∃ dep ∈ addedDeps, dep.1 = barrier := by
  rw [added.count] at upper
  have listed : barrier ∈ addedDeps.map fst := by
    rw [added.numbered, mem_range'_1]
    exact ⟨lower, upper⟩
  exact mem_map.mp listed

section

variable (valid : info.Valid) (mem : dep ∈ addedDeps)
include valid mem

theorem Added.not_linked_old (side : Side) (task : Nat) :
    ¬ (info.table side).Linked dep.1 task := fun linked =>
  absurd (valid.barrier_lt side linked) (added.barrier_ge mem).not_gt

theorem Added.linked_dep (side : Side) (task : Nat) :
    (current.table side).Linked dep.1 task ↔ task = depTask side dep := by
  rw [added.linked]
  constructor
  · rintro (old | ⟨other, otherMember, same, own⟩)
    · exact absurd old (added.not_linked_old valid mem side task)
    · exact added.eq_of_barrier otherMember mem same ▸ own.symm
  · exact fun own => .inr ⟨dep, mem, rfl, own.symm⟩

/-- Before the optimization only the added barrier orders the tasks of a dependency. -/
theorem Added.common (updated : current.updates.Linked barrier dep.2.1)
    (waited : current.waits.Linked barrier dep.2.2) : barrier = dep.1 := by
  rcases (added.linked .update barrier _).mp updated with old | ⟨other, otherMember, rfl, producer⟩
  · rcases (added.linked .wait barrier _).mp waited with oldWait | ⟨other, otherMember, rfl, _⟩
    · exact absurd ⟨barrier, old, oldWait⟩ (added.fresh dep mem)
    · exact absurd old (added.not_linked_old valid otherMember .update _)
  · exact congrArg fst (added.eq_of_producer otherMember mem producer)

theorem Added.temporary : Temporary dep current := by
  have update := added.linked_dep valid mem .update
  have wait := added.linked_dep valid mem .wait
  refine ⟨fun task => (update task).mp, fun task => (wait task).mp, fun half => half ?_,
    fun barrier task updated waited linked => ?_,
    fun _ barrier updated waited => added.common valid mem updated waited⟩
  · exact iff_of_true ⟨_, (update _).mpr rfl⟩ ⟨_, (wait _).mpr rfl⟩
  · rw [added.common valid mem updated waited] at linked
    exact (update task).mp linked

end

end

theorem pruned_subset {after : BarrierInfo Queue} {side : Side} (pruned : Pruned current side after)
    (other : Side) {barrier task : Nat} (linked : (after.table other).Linked barrier task) :
    (current.table other).Linked barrier task := by
  by_cases same : other = side
  · subst same
    exact pruned.linked linked
  · have opposite : other = side.opposite := by
      cases side <;> cases other <;> first | rfl | exact absurd rfl same
    subst opposite
    exact pruned.opposite ▸ linked

theorem Added.simplifies (added : Added isDMA blockRange info current addedDeps)
    {before next : BarrierInfo Queue} (ordered : before.IndexOrdered) (valid : before.Valid)
    (count : before.getNumOfVirtualBarriers = current.getNumOfVirtualBarriers)
    (simplifies : Simplifies before next) (all : ∀ dep ∈ addedDeps, Temporary dep before) :
    ∀ dep ∈ addedDeps, Temporary dep next := by
  intro dep mem
  have here := all dep mem
  have balanced : ¬ next.HalfEmpty dep.1 := mt (simplifies.halfEmpty valid ordered) here.balanced
  cases simplifies with
  | pruned side pruned =>
    have update := fun {barrier task} => @pruned_subset _ _ _ _ pruned .update barrier task
    have wait := fun {barrier task} => @pruned_subset _ _ _ _ pruned .wait barrier task
    exact ⟨fun task linked => here.producer task (update linked),
      fun task linked => here.consumer task (wait linked), balanced,
      fun barrier task updated waited linked =>
        here.sole barrier task (update updated) (wait waited) (update linked),
      fun own barrier updated waited =>
        here.unique (update own) barrier (update updated) (wait waited)⟩
  | merged barInd childBarInd less bound filled sameProducers res =>
    subst res
    have waitBound : barInd < before.waits.rows.length :=
      (valid.barriers .wait).symm ▸ less.trans bound
    -- a temporary barrier has a later one with the same producers only when both are empty
    have absorbsNothing : dep.1 = barInd → ∀ task, ¬ before.waits.Linked childBarInd task := by
      rintro rfl task waited
      obtain ⟨other, otherMember, rfl⟩ := added.exists_dep
        ((added.barrier_ge mem).trans less.le) (count ▸ bound)
      have child := all other otherMember
      obtain ⟨producer, updated⟩ := (not_not.mp child.balanced).mpr ⟨task, waited⟩
      have same : dep.2.1 = other.2.1 :=
        (here.producer producer ((sameProducers producer).mpr updated)).symm.trans
          (child.producer producer updated)
      rw [added.eq_of_producer mem otherMember same] at less
      exact lt_irrefl _ less
    refine ⟨fun task linked => here.producer task (linked_mergeBarriers_update.mp linked).1,
      fun task linked => ?_, balanced, fun barrier task updated waited linked => ?_,
      fun own barrier updated waited => ?_⟩
    · rcases ((linked_mergeBarriers_wait waitBound).mp linked).1 with kept | ⟨same, moved⟩
      · exact here.consumer task kept
      · exact absurd moved (absorbsNothing same task)
    · have produced := (linked_mergeBarriers_update.mp updated).1
      have listed := (linked_mergeBarriers_update.mp linked).1
      rcases ((linked_mergeBarriers_wait waitBound).mp waited).1 with kept | ⟨same, moved⟩
      · exact here.sole barrier task produced kept listed
      · rw [same] at produced listed
        exact here.sole childBarInd task ((sameProducers _).mp produced) moved
          ((sameProducers _).mp listed)
    · obtain ⟨live, different⟩ := linked_mergeBarriers_update.mp own
      have produced := (linked_mergeBarriers_update.mp updated).1
      rcases ((linked_mergeBarriers_wait waitBound).mp waited).1 with kept | ⟨same, moved⟩
      · exact here.unique live barrier produced kept
      · rw [same] at produced
        exact absurd (here.unique live childBarInd ((sameProducers _).mp produced) moved).symm
          different

/-! ### Step 3 -/

/-- The state after some of the added dependencies: their barriers have no tasks left. -/
structure Cleared (optimized : BarrierInfo Queue) (done : List (Nat × Nat × Nat))
    (current : BarrierInfo Queue) : Prop where
  valid : current.Valid
  allTaskOps : current.allTaskOps = optimized.allTaskOps
  linked : ∀ side barrier task, (current.table side).Linked barrier task ↔
    (optimized.table side).Linked barrier task ∧ ∀ dep ∈ done, dep.1 ≠ barrier

variable {optimized : BarrierInfo Queue}

theorem Cleared.step {done : List (Nat × Nat × Nat)} (cleared : Cleared optimized done current)
    (temporary : Temporary dep optimized) (fresh : ∀ other ∈ done, other.1 ≠ dep.1) :
    Cleared optimized (done ++ [dep]) (removeTemporary current dep) := by
  have depLinked : ∀ side task, (optimized.table side).Linked dep.1 task →
      task = depTask side dep := by
    intro side task linked
    cases side with
    | update => exact temporary.producer task linked
    | wait => exact temporary.consumer task linked
  have still : ∀ side task, (optimized.table side).Linked dep.1 task →
      (current.table side).Linked dep.1 task :=
    fun side task linked => (cleared.linked side dep.1 task).mpr ⟨linked, fresh⟩
  unfold removeTemporary
  dsimp only
  split
  · have unlinked : ∀ side barrier task,
        (((current.removeProducer dep.1 dep.2.1).removeConsumer dep.1 dep.2.2).table side).Linked
          barrier task ↔
        (current.table side).Linked barrier task ∧
          ¬ (barrier = dep.1 ∧ task = depTask side dep) := by
      intro side barrier task
      cases side with
      | update => exact linked_unlink
      | wait => exact linked_unlink
    refine ⟨cleared.valid.removeProducer.removeConsumer, cleared.allTaskOps,
      fun side barrier task => ?_⟩
    rw [unlinked, cleared.linked, forall_mem_append, forall_mem_singleton, and_assoc]
    refine and_congr_right fun linked => and_congr_right fun _ =>
      ⟨fun notDep same => ?_, fun different both => different both.1.symm⟩
    exact notDep ⟨same.symm, depLinked side task (same ▸ linked)⟩
  · rename_i other
    have empty : ∀ side task, ¬ (optimized.table side).Linked dep.1 task := by
      have notBoth : ¬ (optimized.updates.Linked dep.1 dep.2.1 ∧
          optimized.waits.Linked dep.1 dep.2.2) := by
        rintro ⟨updated, waited⟩
        obtain ⟨first, found⟩ := hasBarrierDependency_isSome cleared.valid
          (still .update _ updated) (still .wait _ waited)
        obtain ⟨firstUpdated, firstWaited⟩ := hasBarrierDependency_some cleared.valid found
        have same := temporary.unique updated first
          ((cleared.linked .update first _).mp firstUpdated).1
          ((cleared.linked .wait first _).mp firstWaited).1
        exact other (same ▸ found)
      have balanced := not_not.mp temporary.balanced
      intro side task linked
      cases side with
      | update =>
        obtain ⟨consumer, waited⟩ := balanced.mp ⟨task, linked⟩
        exact notBoth ⟨temporary.producer task linked ▸ linked,
          temporary.consumer consumer waited ▸ waited⟩
      | wait =>
        obtain ⟨producer, updated⟩ := balanced.mpr ⟨task, linked⟩
        exact notBoth ⟨temporary.producer producer updated ▸ updated,
          temporary.consumer task linked ▸ linked⟩
    refine ⟨cleared.valid, cleared.allTaskOps, fun side barrier task => ?_⟩
    rw [cleared.linked, forall_mem_append, forall_mem_singleton]
    refine and_congr_right fun linked => (and_iff_left fun same => ?_).symm
    exact empty side task (same ▸ linked)

theorem cleared_foldl (valid : optimized.Valid) (barriers : (addedDeps.map Prod.fst).Nodup)
    (all : ∀ dep ∈ addedDeps, Temporary dep optimized) :
    Cleared optimized addedDeps (addedDeps.foldl removeTemporary optimized) := by
  have run : ∀ done rest current, addedDeps = done ++ rest → Cleared optimized done current →
      Cleared optimized addedDeps (rest.foldl removeTemporary current) := by
    intro done rest
    induction rest generalizing done with
    | nil =>
      intro current whole cleared
      rw [whole, append_nil]
      exact cleared
    | cons dep rest ih =>
      intro current whole cleared
      have mem : dep ∈ addedDeps := whole ▸ mem_append_right _ mem_cons_self
      have fresh : ∀ other ∈ done, other.1 ≠ dep.1 := by
        rw [whole, map_append, map_cons] at barriers
        intro other before same
        exact (disjoint_of_nodup_append barriers) (mem_map_of_mem before)
          (same ▸ mem_cons_self)
      exact ih (done ++ [dep]) _ (by rw [whole, append_assoc]; rfl)
        (cleared.step (all dep mem) fresh)
  exact run [] addedDeps optimized rfl ⟨valid, rfl, fun _ _ _ =>
    (and_iff_left fun _ no => absurd no not_mem_nil).symm⟩

/-! ### The whole pass -/

/-- What the pass leaves: the order under barriers and queues, no temporary barrier, no barrier
that became half-empty, and no new direct order but that of neighbours of a DMA queue, at a
barrier with one producer. -/
structure Reduces (isDMA : Queue → Bool) (info after : BarrierInfo Queue) : Prop where
  order : ∀ queues : Queue → Bool, (∀ queue, isDMA queue = true → queues queue = true) →
    ∀ task child, after.PrecedesWith queues task child ↔ info.PrecedesWith queues task child
  barriers : ∀ side barrier task, (after.table side).Linked barrier task →
    barrier < info.getNumOfVirtualBarriers
  balanced : ∀ barrier, after.HalfEmpty barrier → info.HalfEmpty barrier
  direct : ∀ barrier task child, after.updates.Linked barrier task →
    after.waits.Linked barrier child → info.Controls task child ∨
      FifoNeighbour info isDMA task child ∧
        ∀ producer, after.updates.Linked barrier producer → producer = task

theorem Added.reduces (added : Added isDMA blockRange info current addedDeps) (valid : info.Valid)
    (ordered : info.IndexOrdered) {after : BarrierInfo Queue} (reached : current.Reached optimized)
    (cleared : Cleared optimized addedDeps after) : Reduces isDMA info after := by
  have currentOrdered := added.indexOrdered valid ordered
  have temporaries : ∀ dep ∈ addedDeps, Temporary dep optimized :=
    reached.preserves added.valid currentOrdered (fun dep => added.temporary valid)
      fun kept simplifies all => added.simplifies (kept.ordered currentOrdered) kept.valid
        kept.same.barriers simplifies all
  have tasks : optimized.allTaskOps = info.allTaskOps :=
    reached.kept.same.allTaskOps.trans added.allTaskOps
  have afterTasks : after.allTaskOps = info.allTaskOps := cleared.allTaskOps.trans tasks
  have inOptimized : ∀ {task child : Nat}, after.Controls task child →
      optimized.Controls task child := by
    rintro task child ⟨barrier, updated, waited⟩
    exact ⟨barrier, ((cleared.linked .update barrier task).mp updated).1,
      ((cleared.linked .wait barrier child).mp waited).1⟩
  have oldBarrier : ∀ side barrier task, (after.table side).Linked barrier task →
      barrier < info.getNumOfVirtualBarriers := by
    intro side barrier task linked
    obtain ⟨old, notDep⟩ := (cleared.linked side barrier task).mp linked
    have bound := reached.kept.valid.barrier_lt side old
    rw [reached.kept.same.barriers] at bound
    by_contra beyond
    obtain ⟨dep, mem, same⟩ := added.exists_dep (not_lt.mp beyond) bound
    exact notDep dep mem same
  refine ⟨fun queues covers task child => ⟨?_, ?_⟩, oldBarrier, fun barrier half balanced => ?_,
    fun barrier task child updated waited => ?_⟩
  · refine precedesWith_of_controls afterTasks.symm fun controls => ?_
    have path := reached.kept.precedes.mp (.single (inOptimized controls))
    refine Relation.TransGen.closed ?_ _ _ path
    intro first second direct
    rcases added.controls valid direct with old | ⟨dep, mem, rfl, rfl⟩
    · exact .single (.inl old)
    · exact .single (.inr ((added.neighbours dep mem).fifoOrder.mono covers))
  · refine precedesWith_of_controls afterTasks fun controls => ?_
    have path := reached.kept.precedes.mpr (.single (added.controls_old controls))
    refine Relation.TransGen.closed ?_ _ _ path
    rintro first second ⟨barrier, updated, waited⟩
    by_cases temporary : ∃ dep ∈ addedDeps, dep.1 = barrier
    · obtain ⟨dep, mem, rfl⟩ := temporary
      have here := temporaries dep mem
      rw [here.producer first updated, here.consumer second waited]
      exact .single (.inr (fifoOrder_congr afterTasks ▸
        (added.neighbours dep mem).fifoOrder.mono covers))
    · have notDep : ∀ dep ∈ addedDeps, dep.1 ≠ barrier := fun dep mem same =>
        temporary ⟨dep, mem, same⟩
      exact .single (.inl ⟨barrier, (cleared.linked .update barrier _).mpr ⟨updated, notDep⟩,
        (cleared.linked .wait barrier _).mpr ⟨waited, notDep⟩⟩)
  · by_cases temporary : ∃ dep ∈ addedDeps, dep.1 = barrier
    · obtain ⟨dep, mem, rfl⟩ := temporary
      refine half (iff_of_false ?_ ?_)
      · rintro ⟨task, linked⟩
        exact ((cleared.linked .update dep.1 task).mp linked).2 dep mem rfl
      · rintro ⟨task, linked⟩
        exact ((cleared.linked .wait dep.1 task).mp linked).2 dep mem rfl
    · have notDep : ∀ dep ∈ addedDeps, dep.1 ≠ barrier := fun dep mem same =>
        temporary ⟨dep, mem, same⟩
      have stays : ∀ side, (∃ task, (after.table side).Linked barrier task) ↔
          ∃ task, (optimized.table side).Linked barrier task := fun side =>
        exists_congr fun task => (cleared.linked side barrier task).trans (and_iff_left notDep)
      have before : ∀ side, (∃ task, (current.table side).Linked barrier task) ↔
          ∃ task, (info.table side).Linked barrier task := by
        refine fun side => exists_congr fun task => (added.linked side barrier task).trans
          (or_iff_left ?_)
        rintro ⟨dep, mem, same, _⟩
        exact notDep dep mem same
      have halfOptimized : optimized.HalfEmpty barrier := fun equal =>
        half ((stays .update).trans (equal.trans (stays .wait).symm))
      exact reached.halfEmpty added.valid currentOrdered halfOptimized
        ((before .update).trans (balanced.trans (before .wait).symm))
  · by_cases old : info.Controls task child
    · exact .inl old
    obtain ⟨producedHere, _⟩ := (cleared.linked .update barrier task).mp updated
    obtain ⟨consumedHere, _⟩ := (cleared.linked .wait barrier child).mp waited
    rcases added.controls valid (reached.kept.controls ⟨barrier, producedHere, consumedHere⟩) with
      before | ⟨dep, mem, rfl, rfl⟩
    · exact absurd before old
    · refine .inr ⟨added.neighbours dep mem, fun producer linked => ?_⟩
      exact (temporaries dep mem).sole barrier producer producedHere consumedHere
        ((cleared.linked .update barrier producer).mp linked).1

/-! ### Success -/

/-- The sync tasks are uniformly distributed, also in front of the end of the program. -/
structure UniformlySplit (info : BarrierInfo Queue) : Prop extends info.SyncTasksPlaced where
  last : info.syncTasksIds ≠ [] →
    info.getNumOfTasks ≤ (info.syncTasksIds.length + 1) * info.controlGraphBlockSize

theorem mapM_ok {Item Value : Type} {run : Item → Except Failure Value} {Holds : Value → Prop}
    (items : List Item) (each : ∀ item ∈ items, ∃ value, run item = .ok value ∧ Holds value) :
    ∃ values, items.mapM run = .ok values ∧ ∀ value ∈ values, Holds value := by
  induction items with
  | nil => exact ⟨[], rfl, forall_mem_nil _⟩
  | cons item rest ih =>
    obtain ⟨value, first, holds⟩ := each item mem_cons_self
    obtain ⟨values, others, all⟩ := ih (forall_mem_cons.mp each).2
    refine ⟨value :: values, ?_, forall_mem_cons.mpr ⟨holds, all⟩⟩
    rw [mapM_cons, first, others]
    rfl

theorem blockRanges_ok (placed : info.SyncTasksPlaced) :
    ∃ blockRange, blockRanges info = .ok blockRange ∧ ∀ range ∈ blockRange,
      ∃ blockInd, info.BlockRange blockInd range.1 range.2 :=
  mapM_ok _ fun blockInd mem => by
    obtain ⟨lower, upper, range, block⟩ :=
      getControlGraphBlockTaskRange_ok placed (mem_range.mp mem)
    exact ⟨(lower, upper), range, blockInd, block⟩

theorem respectsSplit_of_blockRange (uniform : UniformlySplit info) (split : info.syncTasksIds ≠ [])
    {blockInd lower upper : Nat} (range : info.BlockRange blockInd lower upper) {task child : Nat}
    (below : lower ≤ task) (less : task < child) (above : child ≤ upper) :
    respectsSplit info.controlGraphBlockSize task child = true := by
  have size := uniform.toSyncTasksPlaced.blockSize_pos split
  have ending : upper + 1 ≤ (blockInd + 1) * info.controlGraphBlockSize := by
    rcases range.last with ⟨final, whole⟩ | ⟨_, _, whole, _⟩
    · rw [whole, final]
      exact uniform.last split
    · exact whole.le
  have beginning : blockInd * info.controlGraphBlockSize ≤ lower + 1 := by
    rcases range.first with ⟨zero, _⟩ | ⟨_, _, start, _⟩
    · rw [zero, Nat.zero_mul]
      exact Nat.zero_le _
    · exact start.symm.le
  have childBlock : child / info.controlGraphBlockSize = blockInd :=
    Nat.div_eq_of_lt_le (by omega) (by omega)
  unfold respectsSplit
  by_cases sync : task + 1 = blockInd * info.controlGraphBlockSize
  · obtain ⟨block, rfl⟩ : ∃ block, blockInd = block + 1 := by
      refine ⟨blockInd - 1, (Nat.sub_add_cancel (Nat.pos_of_ne_zero fun zero => ?_)).symm⟩
      rw [zero, Nat.zero_mul] at sync
      exact absurd sync (Nat.succ_ne_zero task)
    have taskBlock : task / info.controlGraphBlockSize = block := by
      rw [Nat.succ_mul] at sync
      exact Nat.div_eq_of_lt_le (by omega) (by rw [Nat.succ_mul]; omega)
    rw [taskBlock, if_pos (by omega)]
    exact decide_eq_true childBlock.symm
  · have taskBlock : task / info.controlGraphBlockSize = blockInd := by
      refine Nat.div_eq_of_lt_le ?_ (by omega)
      rcases range.first with ⟨zero, _⟩ | ⟨_, _, start, _⟩
      · rw [zero, Nat.zero_mul]
        exact Nat.zero_le _
      · omega
    rw [taskBlock, if_neg (by omega)]
    exact decide_eq_true childBlock.symm

theorem Added.respectsSplit (added : Added isDMA blockRange info current addedDeps)
    (valid : info.Valid) (respects : info.RespectsSplit) (uniform : UniformlySplit info)
    (ranges : ∀ range ∈ blockRange, ∃ blockInd, info.BlockRange blockInd range.1 range.2) :
    current.RespectsSplit := by
  intro split task child controls
  rw [added.syncTasksIds] at split
  rw [added.blockSize]
  rcases added.controls valid controls with old | ⟨dep, mem, rfl, rfl⟩
  · exact respects split old
  · obtain ⟨range, listed, inside⟩ := any_eq_true.mp (added.sameBlock dep mem)
    obtain ⟨blockInd, block⟩ := ranges range listed
    simp only [Bool.and_eq_true, decide_eq_true_eq] at inside
    exact respectsSplit_of_blockRange uniform split block inside.1.1
      (added.neighbours dep mem).fifoOrder.1 inside.2.2

theorem Added.placed (added : Added isDMA blockRange info current addedDeps)
    (placed : info.SyncTasksPlaced) : current.SyncTasksPlaced := by
  have tasks : current.getNumOfTasks = info.getNumOfTasks := congrArg List.length added.allTaskOps
  refine ⟨tasks ▸ placed.occupied, ?_, fun id mem => ?_⟩
  · rw [added.syncTasksIds, added.blockSize]
    exact placed.placed
  · rw [tasks]
    exact placed.bound id (added.syncTasksIds ▸ mem)

theorem reduceBarrierDependencies_reduces [LinearOrder Queue] (valid : info.Valid)
    (ordered : info.IndexOrdered) (isDMA : Queue → Bool) (maxVariantCount : Nat)
    {after : BarrierInfo Queue}
    (res : reduceBarrierDependencies isDMA maxVariantCount info = .ok after) :
    Reduces isDMA info after := by
  obtain ⟨blockRange, _, res⟩ := bind_ok res
  have added := addTemporaries_added isDMA blockRange valid
  obtain ⟨optimized, optimizing, res⟩ := bind_ok res
  have currentOrdered := added.indexOrdered valid ordered
  have reached := optimizeBarriers_reached added.valid currentOrdered optimizing
  have temporaries : ∀ dep ∈ (addTemporaries isDMA blockRange info).2, Temporary dep optimized :=
    reached.preserves added.valid currentOrdered (fun dep => added.temporary valid)
      fun kept simplifies all => added.simplifies (kept.ordered currentOrdered) kept.valid
        kept.same.barriers simplifies all
  have cleared := cleared_foldl reached.kept.valid (added.numbered ▸ nodup_range') temporaries
  cases res
  exact added.reduces valid ordered reached cleared

/-- The pass keeps the order under barriers and queues of an index-ordered graph, and ends
without an error when the sync tasks are uniformly distributed. -/
theorem reduceBarrierDependencies_spec [LinearOrder Queue] (valid : info.Valid)
    (ordered : info.IndexOrdered) (verified : info.verifyControlGraphSplit = .ok true)
    (isDMA : Queue → Bool) (maxVariantCount : Nat) :
    (∀ after, reduceBarrierDependencies isDMA maxVariantCount info = .ok after →
      Reduces isDMA info after) ∧
    (UniformlySplit info →
      ∃ after, reduceBarrierDependencies isDMA maxVariantCount info = .ok after) := by
  refine ⟨fun after => reduceBarrierDependencies_reduces valid ordered isDMA maxVariantCount,
    fun uniform => ?_⟩
  obtain ⟨blockRange, ranges, blocks⟩ := blockRanges_ok uniform.toSyncTasksPlaced
  have added := addTemporaries_added isDMA blockRange valid
  obtain ⟨optimized, optimizing⟩ := optimizeBarriers_ok added.valid
    (added.indexOrdered valid ordered)
    (added.respectsSplit valid (verifyControlGraphSplit_respects valid verified) uniform blocks)
    (added.placed uniform.toSyncTasksPlaced) false maxVariantCount
  refine ⟨(addTemporaries isDMA blockRange info).2.foldl removeTemporary optimized, ?_⟩
  unfold reduceBarrierDependencies
  simp only [ranges, optimizing, bind, Except.bind]
  rfl

theorem reduceBarrierDependencies_spec_two_blocks : ∃ info after : BarrierInfo Nat,
    buildBarrierMaps twoBlockTasks 5 = .ok info ∧
      reduceBarrierDependencies (fun _ => true) 4 info = .ok after ∧
      Reduces (fun _ => true) info after := by
  obtain ⟨info, built, checked⟩ := twoBlockTasks_built
  obtain ⟨ordered, verified, ids, size⟩ := of_decide_eq_true checked
  obtain ⟨valid, tasks⟩ := buildBarrierMaps_valid built
  have count : info.getNumOfTasks = 4 := by
    unfold getNumOfTasks
    rw [tasks]
    rfl
  have uniform : UniformlySplit info := by
    refine ⟨⟨by rw [count]; decide, by rw [ids, size]; decide, ?_⟩, fun _ => ?_⟩
    · rw [ids, count]
      decide
    · rw [ids, size, count]
      decide
  have spec := reduceBarrierDependencies_spec valid ordered verified (fun _ => true) 4
  obtain ⟨after, res⟩ := spec.2 uniform
  exact ⟨info, after, built, res, spec.1 after res⟩

/-- The first task produces a barrier for the third one; the second task is its neighbour on the
queue. -/
def sharedProducerTasks : List (TaskOp Nat) :=
  [⟨0, 1, [], [0], false⟩, ⟨0, 1, [], [], false⟩, ⟨1, 1, [0], [], false⟩]

/-- The first queue is the one of the DMA tasks. -/
def firstQueue (queue : Nat) : Bool := queue = 0

/-- What is checked of the maps that are built for the example. -/
def staysChecks (info : BarrierInfo Nat) : Bool :=
  decide (info.IndexOrdered ∧ info.verifyControlGraphSplit = .ok true ∧
      blockRanges info = .ok [(0, 2)]) &&
    (reduceBarrierDependencies firstQueue 256 info).toOption.any fun after =>
      decide (¬ ∀ dep ∈ (addTemporaries firstQueue [(0, 2)] info).2,
        after.hasBarrierDependency dep.2.1 dep.2.2 = none)

/-- The temporary barrier is merged into the other barrier of its producer, so the second task
goes on waiting for the first one. -/
theorem merged_dependency_stays : ∃ info after : BarrierInfo Nat,
    buildBarrierMaps sharedProducerTasks 1 = .ok info ∧ info.IndexOrdered ∧
      info.verifyControlGraphSplit = .ok true ∧ blockRanges info = .ok [(0, 2)] ∧
      reduceBarrierDependencies firstQueue 256 info = .ok after ∧
      ¬ ∀ dep ∈ (addTemporaries firstQueue [(0, 2)] info).2,
        after.hasBarrierDependency dep.2.1 dep.2.2 = none := by
  obtain ⟨info, built, checked⟩ := exists_ok (buildBarrierMaps sharedProducerTasks 1)
    staysChecks (by decide +kernel)
  obtain ⟨shape, run⟩ := Bool.and_eq_true_iff.mp checked
  obtain ⟨ordered, verified, ranges⟩ := of_decide_eq_true shape
  obtain ⟨after, res, stays⟩ := exists_ok _ _ run
  exact ⟨info, after, built, ordered, verified, ranges, res, of_decide_eq_true stays⟩

end NpuPlugin.ReduceBarrierDependencies
