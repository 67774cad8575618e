/-
This file proves that removing explicit dependencies and merging barriers keep the order of the
tasks under barriers and queues.
-/

import NpuPlugin.DMABarrierOptimization.Model
import NpuPlugin.ReduceBarrierDependencies.Reduced

namespace NpuPlugin.DMABarrierOptimization

open BarrierInfo BarrierLegalization List Relation Run SmallSet

variable {Queue : Type} {info current after : BarrierInfo Queue}
  {taskQueueTypeMap : TaskQueueTypeMap Queue} {dmaQueueTypes : List Queue}

/-! ### Tasks of one queue -/

/-- All tasks of a set are on one DMA queue, and none is a sync point. -/
def OnQueue (info : BarrierInfo Queue) (dmaQueueTypes : List Queue) (tasks : Nat → Prop)
    (queue : Queue) : Prop :=
  queue ∈ dmaQueueTypes ∧ ∀ task, tasks task → queueOf info task = some queue ∧
    info.isSyncPoint task = false

section

variable (describes : taskQueueTypeMap.Describes info dmaQueueTypes)
include describes

theorem haveSameTaskQueueType_iff {tasks : TaskSet} {found : Option Queue}
    (res : info.haveSameImplicitDependencyTaskQueueType taskQueueTypeMap tasks = .ok found)
    (queue : Queue) : found = some queue ↔
      (∃ task, task ∈ tasks) ∧ OnQueue info dmaQueueTypes (· ∈ tasks) queue := by
  have keys : ∀ item ∈ taskQueueTypeMap.entries, item.1 ∈ dmaQueueTypes :=
    fun item mem => describes.keys ▸ mem_map_of_mem mem
  unfold haveSameImplicitDependencyTaskQueueType at res
  split at res
  · next empty =>
    cases res
    refine iff_of_false nofun fun both => ?_
    obtain ⟨⟨task, mem⟩, _⟩ := both
    rw [← mem_elements, empty] at mem
    exact absurd mem not_mem_nil
  · next first rest shape =>
    have own : first ∈ tasks := by
      rw [← mem_elements, shape]
      exact mem_cons_self
    split at res
    · cases res
    · split at res
      · next notFound =>
        cases res
        refine iff_of_false nofun fun ⟨_, counts, all⟩ => ?_
        obtain ⟨item, mem, key⟩ := mem_map.mp (describes.keys ▸ counts)
        have bit := (describes.bits item mem first).mpr (key ▸ (all first own).1)
        exact find?_eq_none.mp notFound item mem bit
      · next item find =>
        have mem := mem_of_find?_eq_some find
        have firstBit := find?_some find
        have firstQueue := (describes.bits item mem first).mp firstBit
        split at res
        · next all =>
          cases res
          rw [all_eq_true] at all
          have each : ∀ task ∈ tasks, queueOf info task = some item.1 ∧
              info.isSyncPoint task = false := by
            intro task taskMember
            have both := all task taskMember
            rw [Bool.and_eq_true, describes.bits item mem, Bool.not_eq_true'] at both
            exact both
          constructor
          · intro same
            exact ⟨⟨first, own⟩, Option.some.inj same ▸ ⟨keys item mem, each⟩⟩
          · intro both
            exact firstQueue.symm.trans (both.2.2 first own).1
        · next notAll =>
          cases res
          refine iff_of_false nofun fun ⟨_, _, all⟩ => notAll (all_eq_true.mpr ?_)
          intro task taskMember
          have same := Option.some.inj (firstQueue.symm.trans (all first own).1)
          rw [Bool.and_eq_true, describes.bits item mem, Bool.not_eq_true', same]
          exact all task taskMember

theorem haveSameTaskQueueType_ok (available : dmaQueueTypes ≠ []) (tasks : TaskSet) :
    ∃ found, info.haveSameImplicitDependencyTaskQueueType taskQueueTypeMap tasks = .ok found := by
  unfold haveSameImplicitDependencyTaskQueueType
  split
  · exact ⟨_, rfl⟩
  · rw [describes.isEmpty available, if_neg Bool.false_ne_true]
    split
    · exact ⟨_, rfl⟩
    · split <;> exact ⟨_, rfl⟩

end

section Pass

variable [DecidableEq Queue]

theorem mem_findExplicitDependencies {dependencies : TaskSet} {type : Queue} {task : Nat} :
    task ∈ findExplicitDependencies info dependencies type ↔ task ∈ dependencies ∧
      info.isSyncPoint task = false ∧ queueOf info task = some type := by
  unfold findExplicitDependencies queueOf
  rw [SmallSet.mem_filter, Bool.and_eq_true, Bool.not_eq_true']
  refine and_congr_right fun _ => and_congr_right fun _ => ?_
  cases info.allTaskOps[task]? with
  | none => simp
  | some taskOp => simp [eq_comm]

/-- A consumer goes when it is on the queue of all producers. -/
def ExplicitConsumer (dmaQueueTypes : List Queue) (info : BarrierInfo Queue) (barrier task : Nat) :
    Prop :=
  info.isSyncPoint task = false ∧ ∃ queue, queueOf info task = some queue ∧
    (∃ producer, info.updates.Linked barrier producer) ∧
      OnQueue info dmaQueueTypes (info.updates.Linked barrier) queue

/-- A producer goes when it is on the queue of all consumers, or there is none. -/
def ExplicitProducer (dmaQueueTypes : List Queue) (info : BarrierInfo Queue) (barrier task : Nat) :
    Prop :=
  info.isSyncPoint task = false ∧ ((∀ consumer, ¬ info.waits.Linked barrier consumer) ∨
    ∃ queue, queueOf info task = some queue ∧
      (∃ consumer, info.waits.Linked barrier consumer) ∧
        OnQueue info dmaQueueTypes (info.waits.Linked barrier) queue)

section

variable {barrier : Nat} (valid : info.Valid)
  (describes : taskQueueTypeMap.Describes info dmaQueueTypes)
include valid describes

theorem removeExplicitConsumers_unlinks
    (res : removeExplicitConsumers taskQueueTypeMap info barrier = .ok after) :
    Unlinks .wait barrier (ExplicitConsumer dmaQueueTypes info barrier) info after := by
  obtain ⟨found, same, res⟩ := bind_ok res
  have queueIff := haveSameTaskQueueType_iff describes same
  cases found with
  | none =>
    cases res
    refine (Unlinks.refl valid .wait barrier).congr fun task _ => iff_of_false id ?_
    rintro ⟨_, queue, _, both⟩
    exact Option.some_ne_none _ ((queueIff queue).mpr both).symm
  | some type =>
    cases res
    refine (unlinkAll_unlinks valid .wait barrier _).congr fun task linked => ?_
    rw [mem_findExplicitDependencies]
    constructor
    · rintro ⟨_, notSync, own⟩
      exact ⟨notSync, type, own, (queueIff type).mp rfl⟩
    · rintro ⟨notSync, queue, own, both⟩
      exact ⟨linked, notSync, own.trans ((queueIff queue).mpr both).symm⟩

theorem removeExplicitProducers_unlinks
    (res : removeExplicitProducers taskQueueTypeMap info barrier = .ok after) :
    Unlinks .update barrier (ExplicitProducer dmaQueueTypes info barrier) info after := by
  obtain ⟨found, same, res⟩ := bind_ok res
  have queueIff := haveSameTaskQueueType_iff describes same
  have unused : (info.getBarrierConsumers barrier).isEmpty = true ↔
      ∀ consumer, ¬ info.waits.Linked barrier consumer := isEmpty_iff
  have withoutConsumers : (∀ consumer, ¬ info.waits.Linked barrier consumer) →
      Unlinks .update barrier (ExplicitProducer dmaQueueTypes info barrier) info
        (info.removeProducers barrier ((info.getBarrierProducers barrier).filter
          fun producer => !info.isSyncPoint producer)) := by
    intro none
    refine (unlinkAll_unlinks valid .update barrier _).congr fun task linked => ?_
    rw [SmallSet.mem_filter, Bool.not_eq_true']
    exact ⟨fun both => ⟨both.2, .inl none⟩, fun explicit => ⟨linked, explicit.1⟩⟩
  cases found with
  | none =>
    dsimp only at res
    split at res
    · next empty =>
      cases res
      exact withoutConsumers (unused.mp empty)
    · next used =>
      cases res
      refine (Unlinks.refl valid .update barrier).congr fun task _ => iff_of_false id ?_
      rintro ⟨_, none | ⟨queue, _, both⟩⟩
      · exact used (unused.mpr none)
      · exact Option.some_ne_none _ ((queueIff queue).mpr both).symm
  | some type =>
    have both := (queueIff type).mp rfl
    have used : ¬ (info.getBarrierConsumers barrier).isEmpty = true := by
      rw [unused]
      obtain ⟨⟨consumer, linked⟩, _⟩ := both
      exact fun none => none consumer linked
    cases res
    rw [if_neg used]
    refine (unlinkAll_unlinks valid .update barrier _).congr fun task linked => ?_
    rw [mem_findExplicitDependencies]
    constructor
    · rintro ⟨_, notSync, own⟩
      exact ⟨notSync, .inr ⟨type, own, both⟩⟩
    · rintro ⟨notSync, none | ⟨queue, own, others⟩⟩
      · exact absurd (unused.mpr none) used
      · exact ⟨linked, notSync, own.trans ((queueIff queue).mpr others).symm⟩

end

end Pass

/-! ### One barrier -/

/-- What removing explicit dependencies makes of one barrier. -/
structure Explicit (dmaQueueTypes : List Queue) (barrier : Nat) (info after : BarrierInfo Queue) :
    Prop where
  valid : after.Valid
  same : info.SameTasks after
  subset : ∀ (side : Side) {row task : Nat}, (after.table side).Linked row task →
    (info.table side).Linked row task
  others : ∀ (side : Side) {row task : Nat}, row ≠ barrier → (info.table side).Linked row task →
    (after.table side).Linked row task
  order : ∀ {producer consumer : Nat}, info.updates.Linked barrier producer →
    info.waits.Linked barrier consumer →
    (after.updates.Linked barrier producer ∧ after.waits.Linked barrier consumer) ∨
      ∃ queue ∈ dmaQueueTypes, queueOf info producer = some queue ∧
        queueOf info consumer = some queue
  balanced : after.HalfEmpty barrier → info.HalfEmpty barrier
  unused : (∀ consumer, ¬ after.waits.Linked barrier consumer) →
    ∀ {producer : Nat}, after.updates.Linked barrier producer → info.isSyncPoint producer = true

variable {barrier : Nat} {middle : BarrierInfo Queue}

theorem explicit_of_unlinks
    (consumers : Unlinks .wait barrier (ExplicitConsumer dmaQueueTypes info barrier) info middle)
    (producers : Unlinks .update barrier (ExplicitProducer dmaQueueTypes middle barrier) middle
      after) : Explicit dmaQueueTypes barrier info after := by
  have updates : ∀ row task, middle.updates.Linked row task ↔ info.updates.Linked row task :=
    fun row task => (consumers.linked .update row task).trans
      (and_iff_left fun both => Side.noConfusion both.1)
  have waits : ∀ row task, after.waits.Linked row task ↔ middle.waits.Linked row task :=
    fun row task => (producers.linked .wait row task).trans
      (and_iff_left fun both => Side.noConfusion both.1)
  have sync := consumers.same.isSyncPoint
  have queue := consumers.same.queueOf
  -- A consumer that goes is on the queue of every producer.
  have consumerGone : ∀ {consumer : Nat}, info.waits.Linked barrier consumer →
      ¬ middle.waits.Linked barrier consumer →
      ExplicitConsumer dmaQueueTypes info barrier consumer := by
    intro consumer before gone
    by_contra stays
    exact gone ((consumers.linked .wait barrier consumer).mpr ⟨before, fun both => stays both.2.2⟩)
  have producerGone : ∀ {producer : Nat}, info.updates.Linked barrier producer →
      ¬ after.updates.Linked barrier producer →
      ExplicitProducer dmaQueueTypes middle barrier producer := by
    intro producer before gone
    by_contra stays
    exact gone ((producers.linked .update barrier producer).mpr
      ⟨(updates _ _).mpr before, fun both => stays both.2.2⟩)
  refine ⟨producers.valid, consumers.same.trans producers.same,
    fun side row task linked => consumers.subset side (producers.subset side linked),
    fun side row task different linked => ?_, fun {producer consumer} updated waited => ?_,
    fun half balanced => half ?_, fun unused producer linked => ?_⟩
  · exact (producers.linked side row task).mpr ⟨(consumers.linked side row task).mpr
      ⟨linked, fun both => different both.2.1⟩, fun both => different both.2.1⟩
  · by_cases consumerStays : middle.waits.Linked barrier consumer
    · by_cases producerStays : after.updates.Linked barrier producer
      · exact .inl ⟨producerStays, (waits _ _).mpr consumerStays⟩
      · obtain ⟨_, none | ⟨type, own, _, counts, all⟩⟩ := producerGone updated producerStays
        · exact absurd consumerStays (none consumer)
        · exact .inr ⟨type, counts, (queue _).symm.trans own,
            (queue _).symm.trans (all consumer consumerStays).1⟩
    · obtain ⟨_, type, own, _, counts, all⟩ := consumerGone waited consumerStays
      exact .inr ⟨type, counts, (all producer updated).1, own⟩
  · by_cases used : ∃ consumer, middle.waits.Linked barrier consumer
    · obtain ⟨consumer, consumerStays⟩ := used
      refine iff_of_true ?_ ⟨consumer, (waits _ _).mpr consumerStays⟩
      by_contra none
      obtain ⟨producer, updated⟩ := balanced.mpr ⟨consumer, consumers.subset .wait consumerStays⟩
      -- Without any producer left all producers and the consumer are on one queue.
      have all : ∀ other, info.updates.Linked barrier other →
          ∃ type ∈ dmaQueueTypes, BarrierLegalization.queueOf info other = some type ∧
            BarrierLegalization.queueOf info consumer = some type ∧
              info.isSyncPoint other = false ∧ info.isSyncPoint consumer = false := by
        intro other linked
        obtain ⟨notSync, unused | ⟨type, own, _, counts, others⟩⟩ :=
          producerGone linked fun stays => none ⟨other, stays⟩
        · exact absurd consumerStays (unused consumer)
        · have last := others consumer consumerStays
          exact ⟨type, counts, (queue _).symm.trans own, (queue _).symm.trans last.1,
            (sync _).symm.trans notSync, (sync _).symm.trans last.2⟩
      obtain ⟨type, counts, _, consumerQueue, _, consumerSync⟩ := all producer updated
      refine ((consumers.linked .wait barrier consumer).mp consumerStays).2 ⟨rfl, rfl, consumerSync,
        type, consumerQueue, ⟨producer, updated⟩, counts, fun other linked => ?_⟩
      obtain ⟨otherType, _, otherQueue, equal, otherSync, _⟩ := all other linked
      exact ⟨otherQueue.trans (equal.symm.trans consumerQueue), otherSync⟩
    · have unused : ∀ consumer, ¬ middle.waits.Linked barrier consumer :=
        fun consumer linked => used ⟨consumer, linked⟩
      refine iff_of_false ?_ fun consumed => used (consumed.imp fun _ => (waits _ _).mp)
      rintro ⟨producer, linked⟩
      have here := (producers.linked .update barrier producer).mp linked
      have producerLinked := (updates _ _).mp here.1
      obtain ⟨consumer, waited⟩ := balanced.mp ⟨producer, producerLinked⟩
      -- The consumer went because no producer is a sync point.
      obtain ⟨_, _, _, _, _, all⟩ := consumerGone waited (unused consumer)
      exact here.2 ⟨rfl, rfl, (sync _).trans (all producer producerLinked).2, .inl unused⟩
  · have here := (producers.linked .update barrier producer).mp linked
    have middleUnused : ∀ consumer, ¬ middle.waits.Linked barrier consumer :=
      fun consumer linked => unused consumer ((waits _ _).mpr linked)
    by_contra notSync
    exact here.2 ⟨rfl, rfl, (sync _).trans (Bool.eq_false_iff.mpr notSync), .inl middleUnused⟩

theorem Explicit.removes [DecidableEq Queue] (explicit : Explicit dmaQueueTypes barrier info after)
    (ordered : info.IndexOrdered) : Removes (isDMAQueue dmaQueueTypes) info after := by
  refine ⟨⟨explicit.valid, explicit.same, fun row producer consumer updated waited =>
    ordered row _ _ (explicit.subset .update updated) (explicit.subset .wait waited), ?_, ?_⟩,
    explicit.subset⟩
  · refine precedesWith_of_controls explicit.same.allTaskOps ?_
    rintro task child ⟨row, updated, waited⟩
    by_cases own : row = barrier
    · subst own
      rcases explicit.order updated waited with ⟨producer, consumer⟩ | ⟨queue, counts, equal, other⟩
      · exact .single (.inl ⟨row, producer, consumer⟩)
      · have fifo : info.FifoOrder (isDMAQueue dmaQueueTypes) task child :=
          ⟨ordered row _ _ updated waited, queue, decide_eq_true counts, equal, other⟩
        exact .single (.inr (fifoOrder_congr explicit.same.allTaskOps ▸ fifo))
    · exact .single (.inl ⟨row, explicit.others .update own updated,
        explicit.others .wait own waited⟩)
  · intro row half
    by_cases own : row = barrier
    · exact own ▸ explicit.balanced (own ▸ half)
    · have stays : ∀ side, (∃ task, (after.table side).Linked row task) ↔
          ∃ task, (info.table side).Linked row task := fun side =>
        ⟨fun ⟨task, linked⟩ => ⟨task, explicit.subset side linked⟩,
          fun ⟨task, linked⟩ => ⟨task, explicit.others side own linked⟩⟩
      exact fun balanced => half ((stays .update).trans (balanced.trans (stays .wait).symm))

/-! ### The check -/

/-- The barriers at which the check fails: no task waits, and a sync point is a producer. -/
def Guarded (info : BarrierInfo Queue) (barrier : Nat) : Prop :=
  (∀ consumer, ¬ info.waits.Linked barrier consumer) ∧
    ∃ producer, info.updates.Linked barrier producer ∧ info.isSyncPoint producer = true

theorem Guarded.of_removes {queues : Queue → Bool} (guarded : Guarded after barrier)
    (removes : Removes queues info after) : Guarded info barrier := by
  obtain ⟨unused, producer, linked, sync⟩ := guarded
  have half : after.HalfEmpty barrier := fun balanced =>
    (balanced.mp ⟨producer, linked⟩).elim unused
  have before := removes.subset .update linked
  refine ⟨fun consumer waited => removes.balanced half
    (iff_of_true ⟨producer, before⟩ ⟨consumer, waited⟩), producer, before, ?_⟩
  rw [← removes.same.isSyncPoint]
  exact sync

/-- The function never fails with the check of explicit dependencies. -/
def Unchecked {Value : Type} (run : Except ControlFailure Value) : Prop :=
  ∀ side barrier, run ≠ .error (.invalidOptimization side barrier)

theorem Unchecked.bind {First Second : Type} {first : Except ControlFailure First}
    {second : First → Except ControlFailure Second} (one : Unchecked first)
    (two : ∀ value, Unchecked (second value)) : Unchecked (first >>= second) := by
  intro side barrier failed
  rcases bind_error failed with early | ⟨value, _, late⟩
  · exact one side barrier early
  · exact two value side barrier late

theorem Unchecked.ok {Value : Type} (value : Value) :
    Unchecked (.ok value : Except ControlFailure Value) :=
  fun _ _ failed => by cases failed

theorem Unchecked.maps {Value : Type} (run : Except Failure Value) :
    Unchecked (run.mapError ControlFailure.maps) := by
  intro side barrier failed
  cases run <;> cases failed

theorem Unchecked.foldlM {State Item : Type} {run : State → Item → Except ControlFailure State}
    (each : ∀ state item, Unchecked (run state item)) (items : List Item) (state : State) :
    Unchecked (items.foldlM run state) := by
  intro side barrier failed
  obtain ⟨item, _, last, _, stepFailed⟩ := foldlM_error (fun _ => True) items
    (fun _ _ _ _ _ _ => trivial) state _ trivial failed
  exact each last item side barrier stepFailed

theorem haveSameTaskQueueType_unchecked (tasks : TaskSet) :
    Unchecked (info.haveSameImplicitDependencyTaskQueueType taskQueueTypeMap tasks) := by
  intro side barrier failed
  unfold haveSameImplicitDependencyTaskQueueType at failed
  split at failed
  · cases failed
  · split at failed
    · cases failed
    · split at failed
      · cases failed
      · split at failed <;> cases failed

variable {taskBlockIndex : Nat}

section Check

variable [DecidableEq Queue]

theorem removeExplicitConsumers_unchecked (barrier : Nat) :
    Unchecked (removeExplicitConsumers taskQueueTypeMap info barrier) :=
  (haveSameTaskQueueType_unchecked _).bind fun found => by cases found <;> exact Unchecked.ok _

theorem removeExplicitProducers_unchecked (barrier : Nat) :
    Unchecked (removeExplicitProducers taskQueueTypeMap info barrier) := by
  refine (haveSameTaskQueueType_unchecked _).bind fun found => ?_
  cases found with
  | some type => exact Unchecked.ok _
  | none =>
    dsimp only
    split <;> exact Unchecked.ok _

omit [DecidableEq Queue] in
theorem isEmpty_xor_iff :
    ((info.getBarrierConsumers barrier).isEmpty ^^ (info.getBarrierProducers barrier).isEmpty) =
      true ↔ info.HalfEmpty barrier := by
  unfold HalfEmpty
  have consumers : (info.getBarrierConsumers barrier).isEmpty = false ↔
      ∃ task, info.waits.Linked barrier task := isEmpty_eq_false_iff
  have producers : (info.getBarrierProducers barrier).isEmpty = false ↔
      ∃ task, info.updates.Linked barrier task := isEmpty_eq_false_iff
  rw [← consumers, ← producers]
  cases (info.getBarrierConsumers barrier).isEmpty <;>
    cases (info.getBarrierProducers barrier).isEmpty <;> simp

section

variable (describes : taskQueueTypeMap.Describes info dmaQueueTypes)
  (available : dmaQueueTypes ≠ []) (barrier)
include describes available barrier

theorem removeExplicitConsumers_ok :
    ∃ middle, removeExplicitConsumers taskQueueTypeMap info barrier = .ok middle := by
  obtain ⟨found, same⟩ := haveSameTaskQueueType_ok describes available
    (info.getBarrierProducers barrier)
  unfold removeExplicitConsumers
  rw [same]
  cases found <;> exact ⟨_, rfl⟩

theorem removeExplicitProducers_ok :
    ∃ last, removeExplicitProducers taskQueueTypeMap info barrier = .ok last := by
  obtain ⟨found, same⟩ := haveSameTaskQueueType_ok describes available
    (info.getBarrierConsumers barrier)
  unfold removeExplicitProducers
  dsimp only
  rw [same]
  cases found with
  | some type => exact ⟨_, rfl⟩
  | none => split <;> exact ⟨_, rfl⟩

end

variable {last : BarrierInfo Queue}

theorem removeExplicitOfBarrier_eq
    (consumers : removeExplicitConsumers taskQueueTypeMap info barrier = .ok middle)
    (producers : removeExplicitProducers taskQueueTypeMap middle barrier = .ok last) :
    ¬ last.HalfEmpty barrier ∧ removeExplicitOfBarrier taskQueueTypeMap info barrier = .ok last ∨
      last.HalfEmpty barrier ∧ ∃ side, removeExplicitOfBarrier taskQueueTypeMap info barrier =
        .error (.invalidOptimization side barrier) := by
  unfold removeExplicitOfBarrier
  rw [consumers]
  simp only [bind, Except.bind, producers]
  by_cases half : last.HalfEmpty barrier
  · rw [if_pos (isEmpty_xor_iff.mpr half)]
    exact .inr ⟨half, _, rfl⟩
  · rw [if_neg fun failed => half (isEmpty_xor_iff.mp failed)]
    exact .inl ⟨half, rfl⟩

theorem explicit_of_steps (valid : info.Valid)
    (describes : taskQueueTypeMap.Describes info dmaQueueTypes)
    (consumers : removeExplicitConsumers taskQueueTypeMap info barrier = .ok middle)
    (producers : removeExplicitProducers taskQueueTypeMap middle barrier = .ok last) :
    Explicit dmaQueueTypes barrier info last := by
  have first := removeExplicitConsumers_unlinks valid describes consumers
  exact explicit_of_unlinks first (removeExplicitProducers_unlinks first.valid
    (describes.of_same first.same) producers)

theorem removeExplicitOfBarrier_removes (valid : info.Valid) (ordered : info.IndexOrdered)
    (describes : taskQueueTypeMap.Describes info dmaQueueTypes)
    (res : removeExplicitOfBarrier taskQueueTypeMap info barrier = .ok after) :
    Removes (isDMAQueue dmaQueueTypes) info after := by
  have whole := res
  obtain ⟨middle, consumers, res⟩ := bind_ok res
  obtain ⟨last, producers, _⟩ := bind_ok res
  rcases removeExplicitOfBarrier_eq consumers producers with ⟨_, same⟩ | ⟨_, side, failed⟩
  · have equal := Except.ok.inj (same.symm.trans whole)
    exact equal ▸ (explicit_of_steps valid describes consumers producers).removes ordered
  · rw [failed] at whole
    cases whole

theorem removeExplicitOfBarrier_failed (valid : info.Valid)
    (describes : taskQueueTypeMap.Describes info dmaQueueTypes) {other : Nat} {side : Side}
    (res : removeExplicitOfBarrier taskQueueTypeMap info barrier =
      .error (.invalidOptimization side other)) :
    other = barrier ∧ info.HalfEmpty barrier ∧
      ((∀ producer, ¬ info.updates.Linked barrier producer) ∨ Guarded info barrier) := by
  have whole := res
  rcases bind_error res with early | ⟨middle, consumers, res⟩
  · exact absurd early (removeExplicitConsumers_unchecked barrier side other)
  rcases bind_error res with early | ⟨last, producers, _⟩
  · exact absurd early (removeExplicitProducers_unchecked barrier side other)
  have explicit := explicit_of_steps valid describes consumers producers
  rcases removeExplicitOfBarrier_eq consumers producers with ⟨_, same⟩ | ⟨half, found, failed⟩
  · rw [same] at whole
    cases whole
  · have before := explicit.balanced half
    rw [failed] at whole
    cases whole
    refine ⟨rfl, before, ?_⟩
    by_cases produced : ∃ producer, info.updates.Linked barrier producer
    · have unused : ∀ consumer, ¬ info.waits.Linked barrier consumer := fun consumer waited =>
        before (iff_of_true produced ⟨consumer, waited⟩)
      have lastUnused : ∀ consumer, ¬ last.waits.Linked barrier consumer :=
        fun consumer waited => unused consumer (explicit.subset .wait waited)
      have lastProduced : ∃ producer, last.updates.Linked barrier producer := by
        by_contra none
        exact half (iff_of_false none fun ⟨consumer, waited⟩ => lastUnused consumer waited)
      obtain ⟨producer, linked⟩ := lastProduced
      exact .inr ⟨unused, producer, explicit.subset .update linked,
        explicit.unused lastUnused linked⟩
    · exact .inl fun producer linked => produced ⟨producer, linked⟩

section

variable (describes : taskQueueTypeMap.Describes info dmaQueueTypes)
include describes

theorem removeExplicitOfBarrier_preserves (barrier : Nat) :
    Run.Preserves (Removes (isDMAQueue dmaQueueTypes) info)
      fun current => removeExplicitOfBarrier taskQueueTypeMap current barrier :=
  fun _ _ before res => before.trans (removeExplicitOfBarrier_removes before.valid
    before.ordered (describes.of_same before.same) res)

theorem removeExplicitOfBlock_removes (taskBlockIndex : Nat) :
    Run.Preserves (Removes (isDMAQueue dmaQueueTypes) info)
      fun current => removeExplicitOfBlock taskQueueTypeMap current taskBlockIndex := by
  intro current last before res
  obtain ⟨barriers, _, res⟩ := bind_ok res
  exact Run.Preserves.foldlM _
    (fun barrier _ => removeExplicitOfBarrier_preserves describes barrier) current last before
    res

end

section

variable (valid : info.Valid) (ordered : info.IndexOrdered)
  (describes : taskQueueTypeMap.Describes info dmaQueueTypes)
include valid ordered describes

theorem removeExplicitDependencies_removes
    (res : removeExplicitDependencies taskQueueTypeMap info = .ok after) :
    Removes (isDMAQueue dmaQueueTypes) info after :=
  Run.Preserves.foldlM _ (fun block _ => removeExplicitOfBlock_removes describes block) info after
    (Removes.refl valid ordered) res

variable {barrier : Nat} {side : Side}

theorem removeExplicitOfBlock_failed
    (res : removeExplicitOfBlock taskQueueTypeMap info taskBlockIndex =
      .error (.invalidOptimization side barrier)) : Guarded info barrier := by
  rcases bind_error res with early | ⟨barriers, found, res⟩
  · exact absurd early (Unchecked.maps _ side barrier)
  obtain ⟨_, _, _, _, _, members⟩ := getBarriersForTaskBlock_spec valid (mapError_ok.mp found)
  obtain ⟨visited, mem, last, removes, failed⟩ := foldlM_error
    (Removes (isDMAQueue dmaQueueTypes) info) barriers
    (fun barrier _ => removeExplicitOfBarrier_preserves describes barrier) info _
    (Removes.refl valid ordered) res
  obtain ⟨rfl, half, none | guarded⟩ := removeExplicitOfBarrier_failed removes.valid
    (describes.of_same removes.same) failed
  · -- The barrier would have lost its producers, but kept its consumers.
    obtain ⟨producer, _, linked⟩ := (members barrier).mp mem
    refine absurd (removes.balanced half) (not_not.mpr (iff_of_true ⟨producer, linked⟩ ?_))
    by_contra unused
    exact half (iff_of_false (fun ⟨producer, linked⟩ => none producer linked)
      fun ⟨consumer, waited⟩ => unused ⟨consumer, removes.subset .wait waited⟩)
  · exact guarded.of_removes removes

theorem removeExplicitDependencies_failed (res : removeExplicitDependencies taskQueueTypeMap info =
      .error (.invalidOptimization side barrier)) : Guarded info barrier := by
  obtain ⟨block, _, last, removes, failed⟩ := foldlM_error
    (Removes (isDMAQueue dmaQueueTypes) info) _
    (fun block _ => removeExplicitOfBlock_removes describes block) info _
    (Removes.refl valid ordered) res
  exact (removeExplicitOfBlock_failed removes.valid removes.ordered
    (describes.of_same removes.same) failed).of_removes removes

end

end Check

/-! ### Merging -/

variable {Queue : Type} {queues : Queue → Bool} {info current after : BarrierInfo Queue}
  {taskQueueTypeMap : TaskQueueTypeMap Queue} {origWaitBarriersMap : List TaskSet}

/-! ### The condition -/

open IncidenceTable

theorem producersControlsAllConsumers_spec {origProducers newConsumers origConsumers : TaskSet}
    (res : producersControlsAllConsumers taskQueueTypeMap origProducers newConsumers
      origConsumers origWaitBarriersMap = .ok true) {producer consumer : Nat}
    (produced : producer ∈ origProducers) (consumed : consumer ∈ newConsumers) :
    consumer ∈ origConsumers ∨ producer < consumer := by
  by_cases direct : consumer ∈ origConsumers
  · exact .inl direct
  have new : consumer ∈ newConsumers.filter fun task => decide (task ∉ origConsumers) :=
    mem_filter.mpr ⟨consumed, decide_eq_true direct⟩
  unfold producersControlsAllConsumers at res
  dsimp only at res
  split at res
  · next empty => exact absurd new (isEmpty_iff.mp empty consumer)
  split at res
  · cases res
  obtain ⟨consumersQueued, _, res⟩ := bind_ok res
  split at res
  · cases res
  obtain ⟨producersQueued, _, res⟩ := bind_ok res
  split at res
  · cases res
  split at res
  · cases res
  · next less =>
    have greatest := @le_max?_getD_of_mem origProducers.elements producer 0 produced
    have least := @min?_getD_le_of_mem _ consumer 0 (mem_elements.mpr new)
    exact .inr (by omega)

/-- Two barriers that are merged: both have producers and consumers, and each producer of one is
before each consumer of the other one. -/
structure Mergeable (info : BarrierInfo Queue) (barrierInd nextBarrierInd : Nat) : Prop where
  different : barrierInd ≠ nextBarrierInd
  occupied : ∀ side, (∃ task, (info.table side).Linked barrierInd task) ∧
    ∃ task, (info.table side).Linked nextBarrierInd task
  forward : ∀ {producer consumer : Nat}, info.updates.Linked barrierInd producer →
    info.waits.Linked nextBarrierInd consumer → producer < consumer
  backward : ∀ {producer consumer : Nat}, info.updates.Linked nextBarrierInd producer →
    info.waits.Linked barrierInd consumer → producer < consumer

theorem canBarriersBeMerged_spec (ordered : info.IndexOrdered) {barrierInd nextBarrierInd : Nat}
    {producersA consumersA : TaskSet}
    (producers : ∀ task, task ∈ producersA ↔ info.updates.Linked barrierInd task)
    (consumers : ∀ task, task ∈ consumersA ↔ info.waits.Linked barrierInd task)
    (res : canBarriersBeMerged taskQueueTypeMap producersA consumersA
      (info.getBarrierProducers nextBarrierInd) (info.getBarrierConsumers nextBarrierInd)
      origWaitBarriersMap = .ok true) {producer consumer : Nat} :
    (info.updates.Linked barrierInd producer → info.waits.Linked nextBarrierInd consumer →
      producer < consumer) ∧
    (info.updates.Linked nextBarrierInd producer → info.waits.Linked barrierInd consumer →
      producer < consumer) := by
  obtain ⟨first, one, res⟩ := bind_ok res
  cases first with
  | false => cases res
  | true =>
    obtain ⟨second, two, res⟩ := bind_ok res
    cases second with
    | false => cases res
    | true =>
      refine ⟨fun updated waited => ?_, fun updated waited => ?_⟩
      · rcases producersControlsAllConsumers_spec one ((producers _).mpr updated) waited with
          own | less
        · exact ordered barrierInd _ _ updated ((consumers _).mp own)
        · exact less
      · rcases producersControlsAllConsumers_spec two updated ((consumers _).mpr waited) with
          own | less
        · exact ordered nextBarrierInd _ _ updated own
        · exact less

/-! ### One merge -/

section Merge

variable {barrierInd nextBarrierInd : Nat}

theorem linked_absorbBarrier (side : Side) (inside : barrierInd < (info.table side).rows.length)
    {row task : Nat} :
    ((absorbBarrier info barrierInd nextBarrierInd).table side).Linked row task ↔
      ((info.table side).Linked row task ∨
        row = barrierInd ∧ (info.table side).Linked nextBarrierInd task) ∧
        row ≠ nextBarrierInd := by
  cases side <;>
    exact linked_clearRow.trans (and_congr_left fun _ => linked_linkAll _ inside)

section

variable (mergeable : Mergeable info barrierInd nextBarrierInd) (side : Side)
include mergeable side

theorem Mergeable.row_lt : barrierInd < (info.table side).rows.length :=
  (mergeable.occupied side).1.choose_spec.row_lt

theorem Mergeable.linked {row task : Nat} :
    ((absorbBarrier info barrierInd nextBarrierInd).table side).Linked row task ↔
      ((info.table side).Linked row task ∨
        row = barrierInd ∧ (info.table side).Linked nextBarrierInd task) ∧
        row ≠ nextBarrierInd :=
  linked_absorbBarrier side (mergeable.row_lt side)

end

theorem absorbBarrier_valid (valid : info.Valid)
    (inside : barrierInd < info.getNumOfVirtualBarriers) :
    (absorbBarrier info barrierInd nextBarrierInd).Valid := by
  have first : (info.addProducers barrierInd (info.getBarrierProducers nextBarrierInd)).Valid :=
    valid.addProducers inside fun task mem => valid.task_lt .update mem
  have count : (info.addProducers barrierInd
      (info.getBarrierProducers nextBarrierInd)).getNumOfVirtualBarriers =
        info.getNumOfVirtualBarriers := length_rows_linkAll _
  refine Valid.resetBarrier (first.addConsumers (count.symm ▸ inside) fun task mem => ?_)
  exact valid.task_lt .wait mem

theorem absorbBarrier_same : info.SameTasks (absorbBarrier info barrierInd nextBarrierInd) :=
  ⟨rfl, rfl, rfl, length_rows_clearRow.trans (length_rows_linkAll _)⟩

/-- A merge keeps the order, and no barrier becomes half-empty. -/
theorem Mergeable.keeps (mergeable : Mergeable info barrierInd nextBarrierInd) (valid : info.Valid)
    (ordered : info.IndexOrdered) :
    Keeps queues info (absorbBarrier info barrierInd nextBarrierInd) := by
  have linked := fun side {row task} => @Mergeable.linked _ _ _ _ mergeable side row task
  refine ⟨absorbBarrier_valid valid (mergeable.row_lt .update), absorbBarrier_same, ?_,
    fun path => precedesWith_of_controls absorbBarrier_same.allTaskOps ?_ path,
    fun {row} half balanced => half ?_⟩
  · intro row producer consumer updated waited
    rcases ((linked .update).mp updated).1 with own | ⟨rfl, moved⟩
    · rcases ((linked .wait).mp waited).1 with ownWait | ⟨rfl, movedWait⟩
      · exact ordered row _ _ own ownWait
      · exact mergeable.forward own movedWait
    · rcases ((linked .wait).mp waited).1 with ownWait | ⟨_, movedWait⟩
      · exact mergeable.backward moved ownWait
      · exact ordered nextBarrierInd _ _ moved movedWait
  · rintro task child ⟨row, updated, waited⟩
    by_cases next : row = nextBarrierInd
    · rw [next] at updated waited
      exact .single (.inl ⟨barrierInd,
        (linked .update).mpr ⟨.inr ⟨rfl, updated⟩, mergeable.different⟩,
        (linked .wait).mpr ⟨.inr ⟨rfl, waited⟩, mergeable.different⟩⟩)
    · exact .single (.inl ⟨row, (linked .update).mpr ⟨.inl updated, next⟩,
        (linked .wait).mpr ⟨.inl waited, next⟩⟩)
  · by_cases next : row = nextBarrierInd
    · exact iff_of_false (fun ⟨task, link⟩ => ((linked .update).mp link).2 next)
        fun ⟨task, link⟩ => ((linked .wait).mp link).2 next
    · by_cases own : row = barrierInd
      · have some : ∀ side, ∃ task,
            ((absorbBarrier info barrierInd nextBarrierInd).table side).Linked row task := by
          intro side
          obtain ⟨task, link⟩ := (mergeable.occupied side).1
          exact ⟨task, (linked side).mpr ⟨.inl (own ▸ link), next⟩⟩
        exact iff_of_true (some .update) (some .wait)
      · have same : ∀ side, (∃ task,
            ((absorbBarrier info barrierInd nextBarrierInd).table side).Linked row task) ↔
              ∃ task, (info.table side).Linked row task := fun side =>
          exists_congr fun task => (linked side).trans ((and_iff_left next).trans
            (or_iff_left fun both => own both.1))
        exact (same .update).trans (balanced.trans (same .wait).symm)

end Merge

/-! ### The merges of a block -/

/-- A merge of two barriers of a list. -/
def MergeStep (barriers : List Nat) (info after : BarrierInfo Queue) : Prop :=
  ∃ barrierInd ∈ barriers, ∃ nextBarrierInd ∈ barriers,
    Mergeable info barrierInd nextBarrierInd ∧ after = absorbBarrier info barrierInd nextBarrierInd

variable {barriers : List Nat}

theorem MergeStep.keeps (step : MergeStep barriers info after) (valid : info.Valid)
    (ordered : info.IndexOrdered) : Keeps queues info after := by
  obtain ⟨barrierInd, _, nextBarrierInd, _, mergeable, res⟩ := step
  rw [res]
  exact mergeable.keeps valid ordered

theorem keeps_of_mergeSteps (valid : info.Valid) (ordered : info.IndexOrdered)
    (steps : ReflTransGen (MergeStep barriers) info after) : Keeps queues info after := by
  induction steps with
  | refl => exact Keeps.refl valid ordered
  | tail _ step ih => exact ih.trans (step.keeps ih.valid ih.ordered)

theorem mergeLaterBarriers_steps {barrierInd : Nat} (own : barrierInd ∈ barriers) :
    ∀ {later : List Nat} {producersA consumersA : TaskSet}
      {info : BarrierInfo Queue}, barrierInd ∉ later → (∀ next ∈ later, next ∈ barriers) →
      info.Valid → info.IndexOrdered →
      (∀ task, task ∈ producersA ↔ info.updates.Linked barrierInd task) →
      (∀ task, task ∈ consumersA ↔ info.waits.Linked barrierInd task) →
      (∀ side, ∃ task, (info.table side).Linked barrierInd task) →
      mergeLaterBarriers taskQueueTypeMap origWaitBarriersMap barrierInd later producersA
        consumersA info = .ok after → ReflTransGen (MergeStep barriers) info after := by
  intro later
  induction later with
  | nil =>
    intro producersA consumersA info _ _ _ _ _ _ _ res
    cases res
    exact .refl
  | cons next later ih =>
    intro producersA consumersA info apart listed valid ordered producers consumers occupied res
    rw [mem_cons, not_or] at apart
    rw [forall_mem_cons] at listed
    unfold mergeLaterBarriers at res
    dsimp only at res
    split at res
    · exact ih apart.2 listed.2 valid ordered producers consumers occupied res
    · next nonempty =>
      rw [Bool.or_eq_true, not_or, Bool.not_eq_true, Bool.not_eq_true,
        SmallSet.isEmpty_eq_false_iff, SmallSet.isEmpty_eq_false_iff] at nonempty
      split at res
      · cases res
        exact .refl
      · obtain ⟨merged, condition, res⟩ := bind_ok res
        cases merged with
        | false =>
          exact ih apart.2 listed.2 valid ordered producers consumers occupied
            res
        | true =>
          have between := fun {producer consumer} => @canBarriersBeMerged_spec _ _ _ _ ordered _ _
            _ _ producers consumers condition producer consumer
          have mergeable : Mergeable info barrierInd next := by
            refine ⟨apart.1, fun side => ⟨occupied side, ?_⟩, between.1, between.2⟩
            cases side with
            | update => exact nonempty.1
            | wait => exact nonempty.2
          have keeps : Keeps (fun _ => true) info (absorbBarrier info barrierInd next) :=
            mergeable.keeps valid ordered
          have linked := fun side {task} => @Mergeable.linked _ _ _ _ mergeable side barrierInd task
          have grown : ∀ side task,
              ((absorbBarrier info barrierInd next).table side).Linked barrierInd task ↔
                (info.table side).Linked barrierInd task ∨ (info.table side).Linked next task := by
            intro side task
            rw [linked side, and_iff_left apart.1, and_iff_right rfl]
          refine .head ⟨barrierInd, own, next, listed.1, mergeable, rfl⟩
            (ih apart.2 listed.2 keeps.valid keeps.ordered (fun task => ?_)
              (fun task => ?_) (fun side => ?_) res)
          · rw [mem_union, producers]
            exact (grown .update task).symm
          · rw [mem_union, consumers]
            exact (grown .wait task).symm
          · obtain ⟨task, link⟩ := occupied side
            exact ⟨task, (grown side task).mpr (.inl link)⟩

theorem mergeOrderedBarriers_steps : ∀ {rest : List Nat}
    {info : BarrierInfo Queue}, rest.Nodup → (∀ barrier ∈ rest, barrier ∈ barriers) →
      info.Valid → info.IndexOrdered →
      mergeOrderedBarriers taskQueueTypeMap origWaitBarriersMap rest info = .ok after →
      ReflTransGen (MergeStep barriers) info after := by
  intro rest
  induction rest with
  | nil =>
    intro info _ _ _ _ res
    cases res
    exact .refl
  | cons barrierInd later ih =>
    intro info nodup listed valid ordered res
    rw [nodup_cons] at nodup
    rw [forall_mem_cons] at listed
    unfold mergeOrderedBarriers at res
    dsimp only at res
    split at res
    · exact ih nodup.2 listed.2 valid ordered res
    · next nonempty =>
      rw [Bool.or_eq_true, not_or, Bool.not_eq_true, Bool.not_eq_true,
        SmallSet.isEmpty_eq_false_iff, SmallSet.isEmpty_eq_false_iff] at nonempty
      obtain ⟨middle, merging, res⟩ := bind_ok res
      have first := mergeLaterBarriers_steps listed.1 nodup.1 listed.2 valid ordered
        (fun _ => Iff.rfl) (fun _ => Iff.rfl) (fun side => by
          cases side with
          | update => exact nonempty.1
          | wait => exact nonempty.2) merging
      have keeps : Keeps (fun _ => true) info middle := keeps_of_mergeSteps valid ordered first
      exact first.trans (ih nodup.2 listed.2 keeps.valid keeps.ordered res)

theorem barIndAndMaxProdVec_perm (info : BarrierInfo Queue) (barriers : List Nat) :
    ((barIndAndMaxProdVec info barriers).map Prod.fst).Perm barriers := by
  refine ((perm_insertionSort _ _).map Prod.fst).trans (List.Perm.of_eq ?_)
  rw [List.map_map]
  exact map_id _

theorem mergeBarriersOfBlock_steps (valid : info.Valid) (ordered : info.IndexOrdered)
    (res : mergeBarriersOfBlock taskQueueTypeMap origWaitBarriersMap info
      taskBlockIndex = .ok after) :
    ∃ barriers, info.getBarriersForTaskBlock taskBlockIndex true false .update = .ok barriers ∧
      ReflTransGen (MergeStep barriers) info after := by
  obtain ⟨barriers, found, res⟩ := bind_ok res
  rw [mapError_ok] at found
  obtain ⟨_, _, _, _, sorted, _⟩ := getBarriersForTaskBlock_spec valid found
  have perm := barIndAndMaxProdVec_perm info barriers
  refine ⟨barriers, found, mergeOrderedBarriers_steps ?_ (fun barrier mem => ?_) valid ordered res⟩
  · exact (perm.nodup_iff.mpr (sorted.imp ne_of_lt)).sublist (drop_sublist _ _)
  · exact perm.mem_iff.mp (mem_of_mem_drop mem)

theorem mergeBarriersOfBlock_keeps (taskBlockIndex : Nat) : Run.Preserves (Keeps queues info)
    fun current => mergeBarriersOfBlock taskQueueTypeMap origWaitBarriersMap current
      taskBlockIndex := by
  intro current last before res
  obtain ⟨_, _, steps⟩ := mergeBarriersOfBlock_steps before.valid before.ordered res
  exact before.trans (keeps_of_mergeSteps before.valid before.ordered steps)

theorem mergeBarriers_keeps (valid : info.Valid) (ordered : info.IndexOrdered)
    (res : mergeBarriers taskQueueTypeMap origWaitBarriersMap info = .ok after) :
    Keeps queues info after :=
  Run.Preserves.foldlM _ (fun block _ => mergeBarriersOfBlock_keeps block) info after
    (Keeps.refl valid ordered) res

/-! ### Merging ends -/

theorem inImplicitQueueTypeDependencyList_unchecked (taskList : TaskSet) :
    Unchecked (inImplicitQueueTypeDependencyList taskQueueTypeMap taskList) := by
  unfold inImplicitQueueTypeDependencyList
  split
  · exact fun _ _ failed => by cases failed
  · exact Unchecked.ok _

theorem producersControlsAllConsumers_unchecked
    (origProducers newConsumers origConsumers : TaskSet) :
    Unchecked (producersControlsAllConsumers taskQueueTypeMap origProducers newConsumers
      origConsumers origWaitBarriersMap) := by
  unfold producersControlsAllConsumers
  dsimp only
  split
  · exact Unchecked.ok _
  split
  · exact Unchecked.ok _
  refine (inImplicitQueueTypeDependencyList_unchecked _).bind fun consumersQueued => ?_
  split
  · exact Unchecked.ok _
  refine (inImplicitQueueTypeDependencyList_unchecked _).bind fun producersQueued => ?_
  split
  · exact Unchecked.ok _
  · split <;> exact Unchecked.ok _

theorem canBarriersBeMerged_unchecked (producersA consumersA producersB consumersB : TaskSet) :
    Unchecked (canBarriersBeMerged taskQueueTypeMap producersA consumersA producersB consumersB
      origWaitBarriersMap) := by
  refine (producersControlsAllConsumers_unchecked _ _ _).bind fun first => ?_
  split
  · exact Unchecked.ok _
  refine (producersControlsAllConsumers_unchecked _ _ _).bind fun second => ?_
  split <;> exact Unchecked.ok _

theorem mergeLaterBarriers_unchecked (barrierInd : Nat) (later : List Nat) :
    ∀ (producersA consumersA : TaskSet) (info : BarrierInfo Queue),
      Unchecked (mergeLaterBarriers taskQueueTypeMap origWaitBarriersMap barrierInd later
        producersA consumersA info) := by
  induction later with
  | nil => exact fun _ _ info => Unchecked.ok info
  | cons next later ih =>
    intro producersA consumersA info
    unfold mergeLaterBarriers
    dsimp only
    split
    · exact ih _ _ _
    split
    · exact Unchecked.ok _
    refine (canBarriersBeMerged_unchecked _ _ _ _).bind fun merged => ?_
    split <;> exact ih _ _ _

theorem mergeOrderedBarriers_unchecked (rest : List Nat) : ∀ info : BarrierInfo Queue,
    Unchecked (mergeOrderedBarriers taskQueueTypeMap origWaitBarriersMap rest info) := by
  induction rest with
  | nil => exact fun info => Unchecked.ok info
  | cons barrierInd later ih =>
    intro info
    unfold mergeOrderedBarriers
    dsimp only
    split
    · exact ih _
    · exact (mergeLaterBarriers_unchecked _ _ _ _ _).bind fun _ => ih _

theorem mergeBarriers_unchecked (info : BarrierInfo Queue) :
    Unchecked (mergeBarriers taskQueueTypeMap origWaitBarriersMap info) :=
  Unchecked.foldlM (fun _ _ => (Unchecked.maps _).bind fun _ =>
    mergeOrderedBarriers_unchecked _ _) _ _

section Success

variable (entries : taskQueueTypeMap.entries.isEmpty = false)

include entries

theorem inImplicitQueueTypeDependencyList_ok (taskList : TaskSet) :
    ∃ found, inImplicitQueueTypeDependencyList taskQueueTypeMap taskList = .ok found := by
  unfold inImplicitQueueTypeDependencyList
  rw [entries]
  exact ⟨_, rfl⟩

theorem producersControlsAllConsumers_ok (origProducers newConsumers origConsumers : TaskSet) :
    ∃ found, producersControlsAllConsumers taskQueueTypeMap origProducers newConsumers
      origConsumers origWaitBarriersMap = .ok found := by
  obtain ⟨consumersQueued, first⟩ := inImplicitQueueTypeDependencyList_ok entries
    (newConsumers.filter fun task => decide (task ∉ origConsumers))
  obtain ⟨producersQueued, second⟩ := inImplicitQueueTypeDependencyList_ok entries origProducers
  unfold producersControlsAllConsumers
  simp only [first, second, bind, Except.bind]
  split
  · exact ⟨_, rfl⟩
  split
  · exact ⟨_, rfl⟩
  split
  · exact ⟨_, rfl⟩
  split
  · exact ⟨_, rfl⟩
  split <;> exact ⟨_, rfl⟩

theorem canBarriersBeMerged_ok (producersA consumersA producersB consumersB : TaskSet) :
    ∃ found, canBarriersBeMerged taskQueueTypeMap producersA consumersA producersB consumersB
      origWaitBarriersMap = .ok found := by
  obtain ⟨one, first⟩ := @producersControlsAllConsumers_ok _ _ origWaitBarriersMap entries
    producersA consumersB consumersA
  obtain ⟨two, second⟩ := @producersControlsAllConsumers_ok _ _ origWaitBarriersMap entries
    producersB consumersA consumersB
  unfold canBarriersBeMerged
  simp only [first, second, bind, Except.bind]
  split
  · exact ⟨_, rfl⟩
  split <;> exact ⟨_, rfl⟩

theorem mergeLaterBarriers_ok (barrierInd : Nat) (later : List Nat) :
    ∀ (producersA consumersA : TaskSet) (info : BarrierInfo Queue),
      ∃ last, mergeLaterBarriers taskQueueTypeMap origWaitBarriersMap barrierInd later producersA
        consumersA info = .ok last := by
  induction later with
  | nil => exact fun _ _ info => ⟨info, rfl⟩
  | cons next later ih =>
    intro producersA consumersA info
    unfold mergeLaterBarriers
    dsimp only
    split
    · exact ih _ _ _
    split
    · exact ⟨_, rfl⟩
    obtain ⟨merged, condition⟩ := @canBarriersBeMerged_ok _ _ origWaitBarriersMap entries
      producersA consumersA (info.getBarrierProducers next) (info.getBarrierConsumers next)
    simp only [condition, bind, Except.bind]
    split <;> exact ih _ _ _

theorem mergeOrderedBarriers_ok (rest : List Nat) : ∀ info : BarrierInfo Queue,
    ∃ last, mergeOrderedBarriers taskQueueTypeMap origWaitBarriersMap rest info = .ok last := by
  induction rest with
  | nil => exact fun info => ⟨info, rfl⟩
  | cons barrierInd later ih =>
    intro info
    unfold mergeOrderedBarriers
    dsimp only
    split
    · exact ih _
    · obtain ⟨middle, merging⟩ := @mergeLaterBarriers_ok _ _ origWaitBarriersMap entries barrierInd
        later (info.getBarrierProducers barrierInd) (info.getBarrierConsumers barrierInd) info
      rw [merging]
      exact ih middle

end Success

/-! ### The split -/

/-- The tasks of some barriers are in a range. -/
def Within (info : BarrierInfo Queue) (barriers : List Nat) (lower upper : Nat) : Prop :=
  ∀ barrier ∈ barriers, ∀ side task, (info.table side).Linked barrier task →
    lower ≤ task ∧ task ≤ upper

variable {lower upper : Nat} {barriers : List Nat}

theorem MergeStep.within (step : MergeStep barriers info after)
    (within : Within info barriers lower upper) : Within after barriers lower upper := by
  obtain ⟨barrierInd, own, nextBarrierInd, next, mergeable, res⟩ := step
  subst res
  intro barrier mem side task linked
  rcases ((mergeable.linked side).mp linked).1 with before | ⟨_, moved⟩
  · exact within barrier mem side task before
  · exact within nextBarrierInd next side task moved

theorem MergeStep.respects {blockInd : Nat} (step : MergeStep barriers info after)
    (ordered : after.IndexOrdered) (within : Within info barriers lower upper)
    (uniform : ReduceBarrierDependencies.UniformlySplit info)
    (range : info.BlockRange blockInd lower upper) (respects : info.RespectsSplit) :
    after.RespectsSplit := by
  have afterWithin := step.within within
  obtain ⟨barrierInd, own, nextBarrierInd, next, mergeable, res⟩ := step
  subst res
  rintro split task child ⟨row, updated, waited⟩
  by_cases same : row = barrierInd
  · rw [same] at updated waited
    exact ReduceBarrierDependencies.respectsSplit_of_blockRange uniform split range
      (afterWithin barrierInd own .update task updated).1 (ordered barrierInd _ _ updated waited)
      (afterWithin barrierInd own .wait child waited).2
  · refine respects split ⟨row, ?_, ?_⟩
    · exact (((mergeable.linked .update).mp updated).1).resolve_right fun both => same both.1
    · exact (((mergeable.linked .wait).mp waited).1).resolve_right fun both => same both.1

theorem uniformlySplit_of_same (uniform : ReduceBarrierDependencies.UniformlySplit info)
    (same : info.SameTasks after) : ReduceBarrierDependencies.UniformlySplit after := by
  refine ⟨uniform.toSyncTasksPlaced.of_same same, fun split => ?_⟩
  rw [same.syncTasksIds] at split ⊢
  rw [same.tasks, same.blockSize]
  exact uniform.last split

variable {blockInd lower upper : Nat}

theorem blockRange_of_same (range : info.BlockRange blockInd lower upper)
    (same : info.SameTasks after) : after.BlockRange blockInd lower upper := by
  refine ⟨same.tasks ▸ range.inside, range.nonempty, ?_, ?_⟩
  · rw [same.isSyncPoint, same.blockSize, same.syncTasksIds]
    exact range.first
  · rw [same.isSyncPoint, same.blockSize, same.syncTasksIds, same.tasks]
    exact range.last

theorem respects_of_mergeSteps (valid : info.Valid) (ordered : info.IndexOrdered)
    (within : Within info barriers lower upper)
    (uniform : ReduceBarrierDependencies.UniformlySplit info)
    (range : info.BlockRange blockInd lower upper) (respects : info.RespectsSplit)
    (steps : ReflTransGen (MergeStep barriers) info after) : after.RespectsSplit := by
  have both : Within after barriers lower upper ∧ after.RespectsSplit := by
    induction steps with
    | refl => exact ⟨within, respects⟩
    | tail before step ih =>
      have keeps : Keeps (fun _ => true) info _ := keeps_of_mergeSteps valid ordered before
      obtain ⟨inside, split⟩ := ih
      have next : Keeps (fun _ => true) _ _ := step.keeps keeps.valid keeps.ordered
      exact ⟨step.within inside, step.respects next.ordered inside
        (uniformlySplit_of_same uniform keeps.same) (blockRange_of_same range keeps.same) split⟩
  exact both.2

end NpuPlugin.DMABarrierOptimization
