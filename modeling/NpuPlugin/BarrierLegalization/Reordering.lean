/-
This file proves that the simulated execution finds an order of the tasks whenever there is one that
keeps the order of each queue and has producers before consumers, and when the reordering fails.
-/

import Mathlib.Order.WellFounded
import NpuPlugin.BarrierLegalization.Model

namespace NpuPlugin.BarrierLegalization

open BarrierInfo IncidenceTable List Option Run

variable {Queue : Type} {orderByConsumption : Bool} {task : Nat}

/-! ### One barrier -/

def withoutProducer (info : BarrierInfo Queue) (task barrier : Nat) : BarrierInfo Queue :=
  let removed := info.removeProducer barrier task
  if (removed.getBarrierProducers barrier).isEmpty then removed.resetBarrier barrier else removed

def OnlyProducer (info : BarrierInfo Queue) (task barrier : Nat) : Prop :=
  ∀ producer, info.updates.Linked barrier producer → producer = task

section OneBarrier

variable (info : BarrierInfo Queue) (task barrier : Nat)

theorem isEmpty_removeProducer_iff :
    ((info.removeProducer barrier task).getBarrierProducers barrier).isEmpty = true ↔
      OnlyProducer info task barrier := by
  rw [SmallSet.isEmpty_iff]
  refine forall_congr' fun producer => ?_
  show ¬ (info.updates.unlink barrier task).Linked barrier producer ↔ _
  rw [linked_unlink]
  tauto

theorem updates_withoutProducer (other producer : Nat) :
    (withoutProducer info task barrier).updates.Linked other producer ↔
      info.updates.Linked other producer ∧ ¬ (other = barrier ∧ producer = task) := by
  unfold withoutProducer
  dsimp only
  split
  · next last =>
    have only := (isEmpty_removeProducer_iff info task barrier).mp last
    show ((info.updates.unlink barrier task).clearRow barrier).Linked other producer ↔ _
    rw [linked_clearRow, linked_unlink]
    constructor
    · exact And.left
    · intro linked
      refine ⟨linked, fun same => linked.2 ⟨same, only producer (same ▸ linked.1)⟩⟩
  · exact linked_unlink

theorem waits_withoutProducer (other consumer : Nat) :
    (withoutProducer info task barrier).waits.Linked other consumer ↔
      info.waits.Linked other consumer ∧
        ¬ (other = barrier ∧ OnlyProducer info task barrier) := by
  unfold withoutProducer
  dsimp only
  split
  · next last =>
    have only := (isEmpty_removeProducer_iff info task barrier).mp last
    show (info.waits.clearRow barrier).Linked other consumer ↔ _
    rw [linked_clearRow]
    tauto
  · next more =>
    have others := fun only => more ((isEmpty_removeProducer_iff info task barrier).mpr only)
    tauto

variable {info} in
theorem valid_withoutProducer (valid : info.Valid) : (withoutProducer info task barrier).Valid := by
  unfold withoutProducer
  dsimp only
  split
  · exact valid.removeProducer.resetBarrier
  · exact valid.removeProducer

theorem allTaskOps_withoutProducer :
    (withoutProducer info task barrier).allTaskOps = info.allTaskOps := by
  unfold withoutProducer
  dsimp only
  split <;> rfl

variable (orderByConsumption) (sim : Simulation Queue)

theorem barrierInfo_removeProducerOf :
    (removeProducerOf orderByConsumption task sim barrier).barrierInfo =
      withoutProducer sim.barrierInfo task barrier := by
  unfold removeProducerOf withoutProducer
  dsimp only
  split <;> split <;> rfl

theorem unchanged_removeProducerOf :
    (removeProducerOf orderByConsumption task sim barrier).newTaskOpOrder =
        sim.newTaskOpOrder ∧
      (removeProducerOf orderByConsumption task sim barrier).frontTasks =
        sim.frontTasks := by
  unfold removeProducerOf
  dsimp only
  split <;> split <;> exact ⟨rfl, rfl⟩

theorem newBarrierOrder_consumption :
    (OnlyProducer sim.barrierInfo task barrier →
        (removeProducerOf true task sim barrier).newBarrierOrder =
          sim.newBarrierOrder ++ [barrier]) ∧
      (¬ OnlyProducer sim.barrierInfo task barrier →
        (removeProducerOf true task sim barrier).newBarrierOrder =
          sim.newBarrierOrder) := by
  rw [← isEmpty_removeProducer_iff]
  unfold removeProducerOf
  simp only [Bool.not_true, Bool.false_and, Bool.false_eq_true, if_false, if_true]
  exact ⟨fun last => by rw [if_pos last], fun more => by rw [if_neg more]⟩

theorem newBarrierOrder_production :
    (barrier ∈ sim.newBarrierOrderSet → (removeProducerOf false task sim barrier).newBarrierOrder =
            sim.newBarrierOrder ∧
          (removeProducerOf false task sim barrier).newBarrierOrderSet =
            sim.newBarrierOrderSet) ∧
      (barrier ∉ sim.newBarrierOrderSet →
        (removeProducerOf false task sim barrier).newBarrierOrder =
            sim.newBarrierOrder ++ [barrier] ∧
          (removeProducerOf false task sim barrier).newBarrierOrderSet =
            insert barrier sim.newBarrierOrderSet) := by
  unfold removeProducerOf
  simp only [Bool.not_false, Bool.true_and, decide_eq_true_eq, Bool.false_eq_true, if_false]
  constructor
  · intro listed
    split <;> exact ⟨rfl, rfl⟩
  · intro fresh
    split <;> exact ⟨rfl, rfl⟩

end OneBarrier

/-! ### All barriers of a task -/

/-- What has happened to some of the barriers that a task updates. -/
structure Executing (orderByConsumption : Bool) (start : Simulation Queue) (task : Nat)
    (seen : List Nat) (sim : Simulation Queue) : Prop where
  valid : sim.barrierInfo.Valid
  allTaskOps_eq : sim.barrierInfo.allTaskOps = start.barrierInfo.allTaskOps
  newTaskOpOrder_eq : sim.newTaskOpOrder = start.newTaskOpOrder
  frontTasks_eq : sim.frontTasks = start.frontTasks
  updates_iff : ∀ barrier producer, sim.barrierInfo.updates.Linked barrier producer ↔
    start.barrierInfo.updates.Linked barrier producer ∧ ¬ (barrier ∈ seen ∧ producer = task)
  waits_iff : ∀ barrier consumer, sim.barrierInfo.waits.Linked barrier consumer ↔
    start.barrierInfo.waits.Linked barrier consumer ∧
      ¬ (barrier ∈ seen ∧ OnlyProducer start.barrierInfo task barrier)
  listed_iff : ∀ barrier, barrier ∈ sim.newBarrierOrder ↔
    barrier ∈ start.newBarrierOrder ∨ barrier ∈ seen ∧
      (orderByConsumption = true → OnlyProducer start.barrierInfo task barrier)
  nodup : sim.newBarrierOrder.Nodup
  mem_set : orderByConsumption = false →
    ∀ barrier, barrier ∈ sim.newBarrierOrderSet ↔ barrier ∈ sim.newBarrierOrder

section AllBarriers

variable {start sim : Simulation Queue} {seen : List Nat} {barrier : Nat}

section

variable (executing : Executing orderByConsumption start task seen sim)
  (unseen : barrier ∉ seen)
include executing unseen

theorem Executing.onlyProducer_iff :
    OnlyProducer sim.barrierInfo task barrier ↔
      OnlyProducer start.barrierInfo task barrier := by
  refine forall_congr' fun producer => ?_
  rw [executing.updates_iff, and_iff_left fun both => unseen both.1]

section

variable (fresh : orderByConsumption = true → barrier ∉ start.newBarrierOrder)
include fresh

theorem Executing.listed : (∀ other, other ∈ (removeProducerOf orderByConsumption task sim
        barrier).newBarrierOrder ↔ other ∈ start.newBarrierOrder ∨ other ∈ seen ++ [barrier] ∧
          (orderByConsumption = true → OnlyProducer start.barrierInfo task other)) ∧
      (removeProducerOf orderByConsumption task sim barrier).newBarrierOrder.Nodup ∧
      (orderByConsumption = false → ∀ other,
        other ∈ (removeProducerOf orderByConsumption task sim barrier).newBarrierOrderSet ↔
          other ∈ (removeProducerOf orderByConsumption task sim
            barrier).newBarrierOrder) := by
  have grown : ∀ order : List Nat, barrier ∉ order → order.Nodup → (order ++ [barrier]).Nodup := by
    intro order absent nodup
    rw [nodup_append_comm]
    exact nodup_cons.mpr ⟨absent, nodup⟩
  have old := executing.listed_iff
  cases orderByConsumption with
  | true =>
    obtain ⟨released, kept⟩ := newBarrierOrder_consumption task barrier sim
    rw [executing.onlyProducer_iff unseen] at released kept
    refine ⟨?_, ?_, fun impossible => Bool.noConfusion impossible⟩
    · intro other
      by_cases only : OnlyProducer start.barrierInfo task barrier
      · rw [released only, mem_append, mem_append, mem_singleton, old]
        constructor
        · rintro ((before | later) | same)
          · exact .inl before
          · exact .inr ⟨.inl later.1, later.2⟩
          · exact .inr ⟨.inr same, fun _ => same ▸ only⟩
        · rintro (before | ⟨later | same, holds⟩)
          · exact .inl (.inl before)
          · exact .inl (.inr ⟨later, holds⟩)
          · exact .inr same
      · rw [kept only, mem_append, mem_singleton, old]
        constructor
        · rintro (before | later)
          · exact .inl before
          · exact .inr ⟨.inl later.1, later.2⟩
        · rintro (before | ⟨later | same, holds⟩)
          · exact .inl before
          · exact .inr ⟨later, holds⟩
          · exact absurd (same ▸ holds rfl) only
    · by_cases only : OnlyProducer start.barrierInfo task barrier
      · rw [released only]
        refine grown _ (fun mem => ?_) executing.nodup
        rcases (old barrier).mp mem with before | later
        · exact fresh rfl before
        · exact unseen later.1
      · rw [kept only]
        exact executing.nodup
  | false =>
    obtain ⟨known, new⟩ := newBarrierOrder_production task barrier sim
    have inSet := executing.mem_set rfl
    by_cases present : barrier ∈ sim.newBarrierOrderSet
    · obtain ⟨order, set⟩ := known present
      rw [order, set]
      refine ⟨fun other => ?_, executing.nodup, fun _ => inSet⟩
      rw [old, mem_append, mem_singleton]
      constructor
      · rintro (before | later)
        · exact .inl before
        · exact .inr ⟨.inl later.1, later.2⟩
      · rintro (before | ⟨later | same, holds⟩)
        · exact .inl before
        · exact .inr ⟨later, holds⟩
        · rw [same]
          exact (old barrier).mp ((inSet barrier).mp present)
    · obtain ⟨order, set⟩ := new present
      rw [order, set]
      refine ⟨fun other => ?_, grown _ (fun mem => present ((inSet barrier).mpr mem))
        executing.nodup, fun _ other => ?_⟩
      · rw [mem_append, mem_append, mem_singleton, old]
        constructor
        · rintro ((before | later) | same)
          · exact .inl before
          · exact .inr ⟨.inl later.1, later.2⟩
          · exact .inr ⟨.inr same, fun impossible => Bool.noConfusion impossible⟩
        · rintro (before | ⟨later | same, holds⟩)
          · exact .inl (.inl before)
          · exact .inl (.inr ⟨later, holds⟩)
          · exact .inr same
      · rw [Finset.mem_insert, mem_append, mem_singleton, inSet, or_comm]

theorem Executing.next : Executing orderByConsumption start task (seen ++ [barrier])
      (removeProducerOf orderByConsumption task sim barrier) := by
  have maps := barrierInfo_removeProducerOf orderByConsumption task barrier sim
  obtain ⟨tasks, fronts⟩ := unchanged_removeProducerOf orderByConsumption task barrier sim
  obtain ⟨listed, nodup, inSet⟩ := executing.listed unseen fresh
  refine ⟨?_, ?_, tasks.trans executing.newTaskOpOrder_eq, fronts.trans executing.frontTasks_eq,
    fun other producer => ?_, fun other consumer => ?_, listed, nodup, inSet⟩
  · rw [maps]
    exact valid_withoutProducer _ _ executing.valid
  · rw [maps, allTaskOps_withoutProducer, executing.allTaskOps_eq]
  · rw [maps, updates_withoutProducer, executing.updates_iff, mem_append, mem_singleton]
    tauto
  · rw [maps, waits_withoutProducer, executing.waits_iff, executing.onlyProducer_iff unseen,
      mem_append, mem_singleton]
    constructor
    · rintro ⟨⟨linked, notSeen⟩, notHere⟩
      refine ⟨linked, ?_⟩
      rintro ⟨mem | same, only⟩
      · exact notSeen ⟨mem, only⟩
      · exact notHere ⟨same, same ▸ only⟩
    · rintro ⟨linked, neither⟩
      refine ⟨⟨linked, fun both => neither ⟨.inl both.1, both.2⟩⟩, ?_⟩
      rintro ⟨same, only⟩
      exact neither ⟨.inr same, same ▸ only⟩

end

end

theorem removeBarrierProducer_executing (valid : start.barrierInfo.Valid)
    (nodup : start.newBarrierOrder.Nodup) (inSet : orderByConsumption = false →
      ∀ barrier, barrier ∈ start.newBarrierOrderSet ↔ barrier ∈ start.newBarrierOrder)
    (fresh : orderByConsumption = true → ∀ barrier, start.barrierInfo.updates.Linked barrier task →
      barrier ∉ start.newBarrierOrder) :
    Executing orderByConsumption start task (start.barrierInfo.getUpdateBarriers task).elements
      (removeBarrierProducer orderByConsumption start task) := by
  have run : ∀ (rest seen : List Nat) (sim : Simulation Queue), (seen ++ rest).Nodup →
      (∀ barrier ∈ rest, start.barrierInfo.updates.Linked barrier task) →
      Executing orderByConsumption start task seen sim →
      Executing orderByConsumption start task (seen ++ rest)
        (rest.foldl (removeProducerOf orderByConsumption task) sim) := by
    intro rest
    induction rest with
    | nil =>
      intro seen sim _ _ executing
      rw [append_nil]
      exact executing
    | cons head tail ih =>
      intro seen sim distinct linked executing
      have split : seen ++ head :: tail = (seen ++ [head]) ++ tail := by simp
      rw [foldl_cons, split]
      rw [split] at distinct
      refine ih (seen ++ [head]) _ distinct
        (forall_mem_cons.mp linked).2
        (executing.next ?_ fun consumption => fresh consumption head (linked head mem_cons_self))
      have apart := (nodup_append.mp distinct).1
      rw [nodup_append_comm] at apart
      exact (nodup_cons.mp apart).1
  have links : ∀ barrier ∈ (start.barrierInfo.getUpdateBarriers task).elements,
      start.barrierInfo.updates.Linked barrier task :=
    fun barrier mem => (valid.mirrored .update barrier task).mp mem
  refine run _ [] start (start.barrierInfo.getUpdateBarriers task).nodup links ?_
  exact ⟨valid, rfl, rfl, rfl, by simp, by simp, by simp, nodup, inSet⟩

end AllBarriers

/-! ### Orders of the tasks -/

variable {Queue : Type} {info : BarrierInfo Queue} {orderByConsumption : Bool}

/-! ### Orders of the tasks -/

/-- The first task comes before the second one in their queue. -/
def QueueBefore (info : BarrierInfo Queue) (first second : Nat) : Prop :=
  first < second ∧ ∃ queue, queueOf info first = some queue ∧ queueOf info second = some queue

/-- An order of all tasks that keeps that of each queue and has the producers of a barrier before
its consumers. -/
structure IsTaskOrder (info : BarrierInfo Queue) (order : List Nat) : Prop where
  perm : order.Perm (List.range info.getNumOfTasks)
  queues : ∀ first second, QueueBefore info first second → order.idxOf first < order.idxOf second
  barriers : ∀ producer consumer, info.Controls producer consumer →
    order.idxOf producer < order.idxOf consumer

/-- Every barrier for which a task waits has a producer. -/
def WaitsProduced (info : BarrierInfo Queue) : Prop :=
  ∀ barrier consumer, info.waits.Linked barrier consumer →
    ∃ producer, info.updates.Linked barrier producer

def IsUsed (info : BarrierInfo Queue) (barrier : Nat) : Prop :=
  ∃ task, info.updates.Linked barrier task ∨ info.waits.Linked barrier task

/-! ### The invariant of the simulation -/

/-- The barrier had producers, and all of them have been executed. -/
def Released (info : BarrierInfo Queue) (done : List Nat) (barrier : Nat) : Prop :=
  (∃ producer, info.updates.Linked barrier producer) ∧
    ∀ producer, info.updates.Linked barrier producer → producer ∈ done

variable {barrier : Nat}

theorem Released.mono {done more : List Nat} (released : Released info done barrier)
    (contained : ∀ task ∈ done, task ∈ more) : Released info more barrier :=
  ⟨released.1, fun producer linked => contained producer (released.2 producer linked)⟩

/-- A barrier is in the barrier order from its release on, or from its first producer on. -/
def IsListed (info : BarrierInfo Queue) (orderByConsumption : Bool) (done : List Nat)
    (barrier : Nat) : Prop :=
  (∃ producer ∈ done, info.updates.Linked barrier producer) ∧
    (orderByConsumption = true → Released info done barrier)

structure Simulated (info : BarrierInfo Queue) (orderByConsumption : Bool)
    (sim : Simulation Queue) : Prop where
  valid : sim.barrierInfo.Valid
  updates_iff : ∀ barrier producer, sim.barrierInfo.updates.Linked barrier producer ↔
    info.updates.Linked barrier producer ∧ producer ∉ sim.newTaskOpOrder
  waits_iff : ∀ barrier consumer, sim.barrierInfo.waits.Linked barrier consumer ↔
    info.waits.Linked barrier consumer ∧ ¬ Released info sim.newTaskOpOrder barrier
  nodup : sim.newTaskOpOrder.Nodup
  inside : ∀ task ∈ sim.newTaskOpOrder, task < info.getNumOfTasks
  ordered : ∀ second ∈ sim.newTaskOpOrder, ∀ first,
    QueueBefore info first second ∨ info.Controls first second →
      first ∈ sim.newTaskOpOrder ∧
        sim.newTaskOpOrder.idxOf first < sim.newTaskOpOrder.idxOf second
  released : ∀ task ∈ sim.newTaskOpOrder, ∀ barrier, info.waits.Linked barrier task →
    Released info sim.newTaskOpOrder barrier
  listed_iff : ∀ barrier, barrier ∈ sim.newBarrierOrder ↔
    IsListed info orderByConsumption sim.newTaskOpOrder barrier
  barriers_nodup : sim.newBarrierOrder.Nodup
  mem_set : orderByConsumption = false →
    ∀ barrier, barrier ∈ sim.newBarrierOrderSet ↔ barrier ∈ sim.newBarrierOrder

section Step

variable {sim : Simulation Queue} {task : Nat}

theorem Simulated.released_append_iff (simulated : Simulated info orderByConsumption sim)
    (barrier : Nat) :
    Released info (sim.newTaskOpOrder ++ [task]) barrier ↔
      Released info sim.newTaskOpOrder barrier ∨
        sim.barrierInfo.updates.Linked barrier task ∧
          OnlyProducer sim.barrierInfo task barrier := by
  constructor
  · rintro ⟨⟨producer, linked⟩, all⟩
    by_cases left : ∃ other, sim.barrierInfo.updates.Linked barrier other
    · right
      have only : OnlyProducer sim.barrierInfo task barrier := by
        intro other present
        obtain ⟨original, fresh⟩ := (simulated.updates_iff barrier other).mp present
        rcases mem_append.mp (all other original) with before | same
        · exact absurd before fresh
        · exact mem_singleton.mp same
      obtain ⟨other, present⟩ := left
      exact ⟨only other present ▸ present, only⟩
    · left
      refine ⟨⟨producer, linked⟩, fun other original => ?_⟩
      by_contra fresh
      exact left ⟨other, (simulated.updates_iff barrier other).mpr ⟨original, fresh⟩⟩
  · rintro (before | ⟨linked, only⟩)
    · exact before.mono fun other mem => mem_append_left _ mem
    · refine ⟨⟨task, ((simulated.updates_iff barrier task).mp linked).1⟩, fun other original => ?_⟩
      by_cases executed : other ∈ sim.newTaskOpOrder
      · exact mem_append_left _ executed
      · exact mem_append_right _ (mem_singleton.mpr
          (only other ((simulated.updates_iff barrier other).mpr ⟨original, executed⟩)))

theorem Simulated.execute (simulated : Simulated info orderByConsumption sim)
    (fresh : task ∉ sim.newTaskOpOrder) (inside : task < info.getNumOfTasks)
    (queue : ∀ first, QueueBefore info first task → first ∈ sim.newTaskOpOrder)
    (ready : ∀ barrier, info.waits.Linked barrier task → Released info sim.newTaskOpOrder barrier) :
    Simulated info orderByConsumption (executeReadyOp orderByConsumption sim task) ∧
      (executeReadyOp orderByConsumption sim task).newTaskOpOrder =
        sim.newTaskOpOrder ++ [task] ∧
      (executeReadyOp orderByConsumption sim task).frontTasks = sim.frontTasks := by
  have executing : Executing orderByConsumption
      { sim with newTaskOpOrder := sim.newTaskOpOrder ++ [task] } task
      (sim.barrierInfo.getUpdateBarriers task).elements
      (executeReadyOp orderByConsumption sim task) := by
    refine removeBarrierProducer_executing simulated.valid simulated.barriers_nodup
      simulated.mem_set fun consumption barrier linked mem => ?_
    obtain ⟨_, released⟩ := (simulated.listed_iff barrier).mp mem
    obtain ⟨original, _⟩ := (simulated.updates_iff barrier task).mp linked
    exact fresh ((released consumption).2 task original)
  have seen : ∀ barrier, barrier ∈ (sim.barrierInfo.getUpdateBarriers task).elements ↔
      sim.barrierInfo.updates.Linked barrier task :=
    fun barrier => simulated.valid.mirrored .update barrier task
  have order := executing.newTaskOpOrder_eq
  have mem_order : ∀ other, other ∈ sim.newTaskOpOrder →
      other ∈ (executeReadyOp orderByConsumption sim task).newTaskOpOrder := by
    intro other mem
    rw [order]
    exact mem_append_left _ mem
  refine ⟨⟨executing.valid, ?_, ?_, ?_, ?_, ?_, ?_, ?_, executing.nodup, executing.mem_set⟩,
    order, executing.frontTasks_eq⟩
  · intro barrier producer
    rw [executing.updates_iff, seen, order, mem_append, mem_singleton, not_or]
    rw [simulated.updates_iff]
    constructor
    · rintro ⟨⟨linked, apart⟩, different⟩
      refine ⟨linked, apart, fun same => different ⟨?_, same⟩⟩
      rw [← same]
      exact (simulated.updates_iff barrier producer).mpr ⟨linked, apart⟩
    · rintro ⟨linked, apart, different⟩
      exact ⟨⟨linked, apart⟩, fun both => different both.2⟩
  · intro barrier consumer
    rw [executing.waits_iff, seen, order, simulated.released_append_iff, not_or]
    rw [simulated.waits_iff, and_assoc]
  · rw [order, nodup_append_comm]
    exact nodup_cons.mpr ⟨fresh, simulated.nodup⟩
  · intro other mem
    rw [order, mem_append, mem_singleton] at mem
    rcases mem with before | same
    · exact simulated.inside other before
    · exact same ▸ inside
  · intro second mem first before
    rw [order, mem_append, mem_singleton] at mem
    by_cases old : second ∈ sim.newTaskOpOrder
    · obtain ⟨executed, less⟩ := simulated.ordered second old first before
      refine ⟨mem_order first executed, ?_⟩
      rw [order, idxOf_append_of_mem executed, idxOf_append_of_mem old]
      exact less
    · have same : second = task := mem.resolve_left old
      rw [same] at before
      have executed : first ∈ sim.newTaskOpOrder := by
        rcases before with inQueue | ⟨barrier, produced, waited⟩
        · exact queue first inQueue
        · exact (ready barrier waited).2 first produced
      refine ⟨mem_order first executed, ?_⟩
      rw [order, same, idxOf_append_of_mem executed, idxOf_append_of_notMem fresh, idxOf_cons_self]
      exact idxOf_lt_length_of_mem executed
  · intro other mem barrier waited
    rw [order, mem_append, mem_singleton] at mem
    rcases mem with before | same
    · exact (simulated.released other before barrier waited).mono mem_order
    · exact (ready barrier (same ▸ waited)).mono mem_order
  · intro barrier
    rw [executing.listed_iff, seen, simulated.listed_iff, order]
    unfold IsListed
    rw [simulated.released_append_iff]
    constructor
    · rintro (⟨⟨producer, executed, linked⟩, released⟩ | ⟨linked, only⟩)
      · exact ⟨⟨producer, mem_append_left _ executed, linked⟩,
          fun consumption => .inl (released consumption)⟩
      · exact ⟨⟨task, mem_append_right _ (mem_singleton.mpr rfl),
          ((simulated.updates_iff barrier task).mp linked).1⟩,
          fun consumption => .inr ⟨linked, only consumption⟩⟩
    · rintro ⟨⟨producer, mem, linked⟩, released⟩
      rw [mem_append, mem_singleton] at mem
      cases orderByConsumption with
      | true =>
        rcases released rfl with before | ⟨here, only⟩
        · refine .inl ⟨?_, fun _ => before⟩
          obtain ⟨other, original⟩ := before.1
          exact ⟨other, before.2 other original, original⟩
        · exact .inr ⟨here, fun _ => only⟩
      | false =>
        have never : ∀ {holds : Prop}, false = true → holds :=
          fun impossible => Bool.noConfusion impossible
        rcases mem with executed | same
        · exact .inl ⟨⟨producer, executed, linked⟩, never⟩
        · exact .inr ⟨(simulated.updates_iff barrier task).mpr ⟨same ▸ linked, fresh⟩, never⟩

end Step

/-! ### Runs -/

section Runs

variable [LinearOrder Queue]

theorem executeReadyOps_simulated {Ready : Nat → Prop} {frontTasks last : List (Queue × List Nat)}
    {readyOps : List Nat} (takes : TakesReady Ready frontTasks readyOps last) :
    ∀ sim : Simulation Queue, Simulated info orderByConsumption sim →
      Fronts info sim.newTaskOpOrder frontTasks →
      (∀ task, Ready task → ∀ barrier, info.waits.Linked barrier task →
        Released info sim.newTaskOpOrder barrier) →
      Simulated info orderByConsumption
          (readyOps.foldl (executeReadyOp orderByConsumption) sim) ∧
        Fronts info (readyOps.foldl (executeReadyOp orderByConsumption) sim).newTaskOpOrder
          last ∧
        (readyOps.foldl (executeReadyOp orderByConsumption) sim).frontTasks =
          sim.frontTasks := by
  induction takes with
  | nothing => exact fun sim simulated fronts _ => ⟨simulated, fronts, rfl⟩
  | @take before after last queue task rest readyOps isReady _ ih =>
    intro sim simulated fronts ready
    obtain ⟨own, fresh, earlier, fewer⟩ := fronts.take
    obtain ⟨executed, order, same⟩ := simulated.execute fresh (lt_of_queueOf own)
      (fun first inQueue => by
        obtain ⟨less, other, listed, shared⟩ := inQueue
        rw [own] at shared
        exact earlier first less (listed.trans shared.symm))
      (ready task isReady)
    obtain ⟨final, left, unchanged⟩ := ih _ executed (order ▸ fewer)
      (fun other otherReady barrier waited => by
        rw [order]
        exact (ready other otherReady barrier waited).mono
          fun done mem => mem_append_left _ mem)
    exact ⟨final, left, unchanged.trans same⟩

/-- How the simulation ends: all tasks are executed, or all queues wait although tasks are left. -/
def Ends (info : BarrierInfo Queue) (orderByConsumption : Bool) :
    Except OrderFailure (Simulation Queue) → Prop
  | .ok sim => Simulated info orderByConsumption sim ∧
      Fronts info sim.newTaskOpOrder sim.frontTasks ∧
      allQueuesReachedEnd sim.frontTasks = true
  | .error failure => failure = .simulateExecution ∧ ∃ sim : Simulation Queue,
      Simulated info orderByConsumption sim ∧
      Fronts info sim.newTaskOpOrder sim.frontTasks ∧
      allQueuesReachedEnd sim.frontTasks = false ∧
      allQueuesWaiting sim.barrierInfo sim.frontTasks = true

theorem simulateQueues_ends (fuel : Nat) : ∀ sim : Simulation Queue,
    remaining sim.frontTasks < fuel → Simulated info orderByConsumption sim →
      Fronts info sim.newTaskOpOrder sim.frontTasks →
      Ends info orderByConsumption (simulateQueues orderByConsumption fuel sim) := by
  induction fuel with
  | zero => exact fun _ impossible => absurd impossible (Nat.not_lt_zero _)
  | succ fuel ih =>
    intro sim few simulated fronts
    have takes := findReadyOps_takes sim.barrierInfo (remaining sim.frontTasks)
      sim.frontTasks
    have waiting := findReadyOps_waiting sim.barrierInfo _ sim.frontTasks
      le_rfl
    unfold simulateQueues
    dsimp only
    split
    · next reached => exact ⟨simulated, fronts, reached⟩
    · next left =>
      split
      · next stuck =>
        rw [List.isEmpty_iff] at stuck
        rw [stuck] at takes
        rw [takes.eq_of_nil] at waiting
        exact ⟨rfl, sim, simulated, fronts, Bool.eq_false_of_not_eq_true left, waiting⟩
      · next progress =>
        obtain ⟨executed, fewer, same⟩ := executeReadyOps_simulated takes
          { sim with frontTasks := (findReadyOps sim.barrierInfo
              (remaining sim.frontTasks) sim.frontTasks).2 }
          ⟨simulated.valid, simulated.updates_iff, simulated.waits_iff, simulated.nodup,
            simulated.inside, simulated.ordered, simulated.released, simulated.listed_iff,
            simulated.barriers_nodup, simulated.mem_set⟩ fronts
          (fun task nothing barrier waited => by
            by_contra unreleased
            exact (SmallSet.isEmpty_iff.mp nothing) barrier
              ((simulated.valid.mirrored .wait barrier task).mpr
                ((simulated.waits_iff barrier task).mpr ⟨waited, unreleased⟩)))
        refine ih _ ?_ executed (by rw [same]; exact fewer)
        rw [same]
        dsimp only
        have count := takes.remaining_eq
        have some := length_pos_of_ne_nil
          fun empty => progress (List.isEmpty_iff.mpr empty)
        omega

omit [LinearOrder Queue] in
theorem simulated_initial (valid : info.Valid) (frontTasks : List (Queue × List Nat)) :
    Simulated info orderByConsumption ⟨info, frontTasks, [], [], ∅⟩ := by
  have nothing : ∀ barrier, ¬ Released info [] barrier := by
    rintro barrier ⟨⟨producer, linked⟩, all⟩
    exact not_mem_nil (all producer linked)
  refine ⟨valid, by simp, by simp [nothing], nodup_nil, by simp, by simp, by simp, ?_,
    nodup_nil, by simp⟩
  simp [IsListed]

section

variable {done : List Nat} {frontTasks : List (Queue × List Nat)}
  (fronts : Fronts info done frontTasks)
include fronts

theorem Fronts.remaining_le : remaining frontTasks ≤ info.getNumOfTasks := by
  have distinct : (frontTasks.flatMap Prod.snd).Nodup := by
    rw [nodup_flatMap]
    constructor
    · intro entry mem
      rw [fronts.left entry mem]
      exact (waitingTasks_pairwise info done entry.1).imp ne_of_lt
    · have keys := fronts.keys
      rw [List.Nodup, pairwise_map] at keys
      refine List.Pairwise.imp_of_mem ?_ keys
      intro first second firstMember secondMember different task inFirst inSecond
      rw [fronts.left first firstMember] at inFirst
      rw [fronts.left second secondMember] at inSecond
      exact different (some.inj
        ((mem_waitingTasks.mp inFirst).1.symm.trans (mem_waitingTasks.mp inSecond).1))
  have contained : frontTasks.flatMap Prod.snd ⊆ List.range info.getNumOfTasks := by
    intro task mem
    obtain ⟨entry, listed, inEntry⟩ := mem_flatMap.mp mem
    rw [fronts.left entry listed] at inEntry
    exact mem_range.mpr (lt_of_queueOf (mem_waitingTasks.mp inEntry).1)
  have bound := (subperm_of_subset distinct contained).length_le
  rw [length_flatMap, length_range] at bound
  exact bound

theorem Fronts.all_executed (reached : allQueuesReachedEnd frontTasks = true) {task : Nat}
    (inside : task < info.getNumOfTasks) : task ∈ done := by
  obtain ⟨queue, own⟩ := isSome_iff_exists.mp (queueOf_isSome_iff.mpr inside)
  obtain ⟨entry, mem, key⟩ := mem_map.mp (fronts.covers task queue own)
  have empty := List.isEmpty_iff.mp (all_eq_true.mp reached entry mem)
  rw [fronts.left entry mem, key] at empty
  by_contra missing
  have listed : task ∈ waitingTasks info done queue := mem_waitingTasks.mpr ⟨own, missing⟩
  rw [empty] at listed
  exact not_mem_nil listed

end

/-- A stuck simulation leaves no order, or a task that waits for a barrier without producers:
otherwise the first of the tasks that are left, in the order, would be ready. -/
theorem Simulated.not_stuck {sim : Simulation Queue}
    (simulated : Simulated info orderByConsumption sim)
    (fronts : Fronts info sim.newTaskOpOrder sim.frontTasks)
    (left : allQueuesReachedEnd sim.frontTasks = false)
    (waiting : allQueuesWaiting sim.barrierInfo sim.frontTasks = true) {order : List Nat}
    (isOrder : IsTaskOrder info order) (produced : WaitsProduced info) : False := by
  obtain ⟨entry, mem, nonempty⟩ : ∃ entry ∈ sim.frontTasks, entry.2 ≠ [] := by
    by_contra none
    push Not at none
    refine Bool.noConfusion (left.symm.trans (all_eq_true.mpr fun entry mem => ?_))
    exact List.isEmpty_iff.mpr (none entry mem)
  obtain ⟨some, present⟩ := exists_mem_of_ne_nil _ nonempty
  rw [fronts.left entry mem] at present
  obtain ⟨someQueue, someFresh⟩ := mem_waitingTasks.mp present
  let undone := fun task => task < info.getNumOfTasks ∧ task ∉ sim.newTaskOpOrder
  obtain ⟨task, ⟨inside, fresh⟩, least⟩ :=
    (InvImage.wf (fun task => order.idxOf task) Nat.lt_wfRel.wf).has_min undone
      ⟨some, lt_of_queueOf someQueue, someFresh⟩
  -- All tasks before this one in the order have been executed.
  have executed : ∀ first < info.getNumOfTasks, order.idxOf first < order.idxOf task →
      first ∈ sim.newTaskOpOrder := by
    intro first small less
    by_contra missing
    exact least first ⟨small, missing⟩ less
  obtain ⟨queue, own⟩ := isSome_iff_exists.mp (queueOf_isSome_iff.mpr inside)
  obtain ⟨front, frontMember, key⟩ := mem_map.mp (fronts.covers task queue own)
  have tasks := fronts.left front frontMember
  rw [key] at tasks
  have listed : task ∈ front.2 := tasks ▸ mem_waitingTasks.mpr ⟨own, fresh⟩
  have sorted := waitingTasks_pairwise info sim.newTaskOpOrder queue
  rw [← tasks] at sorted
  cases shape : front.2 with
  | nil => exact not_mem_nil (shape ▸ listed)
  | cons head rest =>
    rw [shape] at listed sorted tasks
    have headWaits := mem_waitingTasks.mp (tasks ▸ mem_cons_self : head ∈ waitingTasks _ _ _)
    have same : head = task := by
      rcases mem_cons.mp listed with equal | later
      · exact equal.symm
      · refine absurd (executed head (lt_of_queueOf headWaits.1) (isOrder.queues head task ?_))
          headWaits.2
        exact ⟨(pairwise_cons.mp sorted).1 task later, queue, headWaits.1, own⟩
    have notReady := all_eq_true.mp waiting front frontMember
    rw [isReady, shape, same] at notReady
    rw [Bool.not_eq_true', SmallSet.isEmpty_eq_false_iff] at notReady
    obtain ⟨barrier, waited⟩ := notReady
    obtain ⟨original, unreleased⟩ := (simulated.waits_iff barrier task).mp
      ((simulated.valid.mirrored .wait barrier task).mp waited)
    refine unreleased ⟨produced barrier task original, fun producer linked => ?_⟩
    have before := isOrder.barriers producer task ⟨barrier, linked, original⟩
    refine executed producer (mem_range.mp (isOrder.perm.mem_iff.mp ?_)) before
    by_contra absent
    rw [idxOf_eq_length absent] at before
    exact absurd before idxOf_le_length.not_gt

end Runs

/-! ### The simulation as a whole -/

theorem hasNoUse_iff (barrier : Nat) : hasNoUse info barrier = false ↔ IsUsed info barrier := by
  unfold hasNoUse IsUsed
  rw [Bool.and_eq_false_iff, SmallSet.isEmpty_eq_false_iff, SmallSet.isEmpty_eq_false_iff,
    ← exists_or]
  rfl

theorem IsUsed.lt (valid : info.Valid) (used : IsUsed info barrier) :
    barrier < info.getNumOfVirtualBarriers := by
  obtain ⟨task, produced | consumed⟩ := used
  · exact valid.barrier_lt .update produced
  · exact valid.barrier_lt .wait consumed

variable {barriers : List Nat}

theorem length_of_isUsed (valid : info.Valid) (nodup : barriers.Nodup)
    (listed : ∀ barrier, barrier ∈ barriers ↔ IsUsed info barrier) :
    barriers.length = info.getNumOfVirtualBarriers -
      ((List.range info.getNumOfVirtualBarriers).filter (hasNoUse info)).length := by
  have all := length_eq_length_filter_add (l := range info.getNumOfVirtualBarriers)
    (hasNoUse info)
  have perm : barriers.Perm
      ((range info.getNumOfVirtualBarriers).filter fun barrier => !hasNoUse info barrier) := by
    refine (perm_ext_iff_of_nodup nodup (nodup_range.filter _)).mpr fun barrier => ?_
    rw [listed, mem_filter, mem_range, Bool.not_eq_true', hasNoUse_iff]
    exact (and_iff_right_of_imp fun used => used.lt valid).symm
  rw [perm.length_eq]
  rw [length_range] at all
  omega

variable [LinearOrder Queue]

/-- What the simulation finds. -/
structure IsExecutionOrder (info : BarrierInfo Queue) (order : ExecutionOrder) : Prop where
  tasks : IsTaskOrder info order.newTaskOpOrder
  barriers_nodup : order.newBarrierOrder.Nodup
  mem_barriers : ∀ barrier, barrier ∈ order.newBarrierOrder ↔ IsUsed info barrier

/-- The simulation finds an order, or there is none, or a task waits for a barrier without
producers. -/
theorem simulateExecution_spec (valid : info.Valid) :
    (∃ order, simulateExecution info orderByConsumption = .ok order ∧
        IsExecutionOrder info order ∧ WaitsProduced info) ∨
      simulateExecution info orderByConsumption = .error .simulateExecution ∧
        ∀ order, IsTaskOrder info order → ¬ WaitsProduced info := by
  have fronts := fronts_getTaskOpQueues info
  have few := fronts.remaining_le
  have ends : Ends info orderByConsumption (simulateQueues orderByConsumption
      (info.getNumOfTasks + 1) ⟨info, (getTaskOpQueues info).toList, [], [], ∅⟩) :=
    simulateQueues_ends _ _ (Nat.lt_succ_of_le few) (simulated_initial valid _) fronts
  cases res : simulateQueues orderByConsumption (info.getNumOfTasks + 1)
      ⟨info, (getTaskOpQueues info).toList, [], [], ∅⟩ with
  | error failure =>
    rw [res] at ends
    obtain ⟨same, sim, simulated, left, unfinished, waiting⟩ := ends
    refine .inr ⟨?_, fun order isOrder produced =>
      simulated.not_stuck left unfinished waiting isOrder produced⟩
    unfold simulateExecution
    dsimp only
    rw [res, same]
    rfl
  | ok sim =>
    rw [res] at ends
    obtain ⟨simulated, left, reached⟩ := ends
    have executed : ∀ task < info.getNumOfTasks, task ∈ sim.newTaskOpOrder :=
      fun task inside => left.all_executed reached inside
    have perm : sim.newTaskOpOrder.Perm (range info.getNumOfTasks) := by
      refine (perm_ext_iff_of_nodup simulated.nodup nodup_range).mpr fun task => ?_
      rw [mem_range]
      exact ⟨simulated.inside task, executed task⟩
    have produced : WaitsProduced info := fun barrier consumer waited =>
      (simulated.released consumer (executed consumer (valid.task_lt .wait waited)) barrier
        waited).1
    have listed : ∀ barrier, barrier ∈ sim.newBarrierOrder ↔ IsUsed info barrier := by
      intro barrier
      rw [simulated.listed_iff]
      constructor
      · rintro ⟨⟨producer, _, linked⟩, _⟩
        exact ⟨producer, .inl linked⟩
      · intro used
        obtain ⟨producer, linked⟩ : ∃ producer, info.updates.Linked barrier producer := by
          obtain ⟨task, updated | waited⟩ := used
          · exact ⟨task, updated⟩
          · exact produced barrier task waited
        have all : ∀ other, info.updates.Linked barrier other → other ∈ sim.newTaskOpOrder :=
          fun other present => executed other (valid.task_lt .update present)
        exact ⟨⟨producer, all producer linked, linked⟩, fun _ => ⟨⟨producer, linked⟩, all⟩⟩
    have order : ∀ first second, QueueBefore info first second ∨ info.Controls first second →
        sim.newTaskOpOrder.idxOf first < sim.newTaskOpOrder.idxOf second := by
      intro first second before
      refine (simulated.ordered second (executed second ?_) first before).2
      rcases before with ⟨_, queue, _, own⟩ | ⟨barrier, _, waited⟩
      · exact lt_of_queueOf own
      · exact valid.task_lt .wait waited
    refine .inl ⟨⟨sim.newTaskOpOrder, sim.newBarrierOrder⟩, ?_, ⟨⟨perm,
      fun first second before => order first second (.inl before),
      fun producer consumer controls => order producer consumer (.inr controls)⟩,
      simulated.barriers_nodup, listed⟩, produced⟩
    have tasksLength : sim.newTaskOpOrder.length = info.getNumOfTasks := by
      rw [perm.length_eq, length_range]
    have barriersLength := length_of_isUsed valid simulated.barriers_nodup listed
    unfold simulateExecution
    dsimp only
    rw [res]
    dsimp only [Bind.bind, Except.bind]
    rw [if_neg (not_not.mpr tasksLength), if_neg (not_not.mpr barriersLength)]
    rfl

/-! ### The maps built anew -/

/-- The sync tasks are as far from each other as the first one from the task before all others. -/
def SyncTasksEven (taskOps : List (TaskOp Queue)) : Prop :=
  let syncTasksIds := taskOps.findIdxs TaskOp.syncTask
  syncTasksIds.IsChain fun first second => second = first + (syncTasksIds.headD 0 + 1)

omit [LinearOrder Queue] in
theorem checkSyncTasks_ok_iff (blockSize : Nat) (ids : List Nat) :
    checkSyncTasks blockSize ids = .ok () ↔
      ids.IsChain fun first second => second = first + blockSize := by
  induction ids with
  | nil => simp [checkSyncTasks]
  | cons first rest ih =>
    cases rest with
    | nil => simp [checkSyncTasks]
    | cons second others =>
      rw [isChain_cons_cons, ← ih, checkSyncTasks]
      split
      · next same => exact (and_iff_right same).symm
      · next different =>
        refine iff_of_false (fun impossible => ?_) fun both => different both.1
        cases impossible

omit [LinearOrder Queue] in
theorem addOperands_ok {barrierCount : Nat} (add : BarrierInfo Queue → Nat → BarrierInfo Queue)
    (kept : ∀ (info : BarrierInfo Queue) bar,
      (add info bar).getNumOfVirtualBarriers = info.getNumOfVirtualBarriers)
    (operands : List Nat) (inside : ∀ bar ∈ operands, bar < barrierCount)
    (info : BarrierInfo Queue) (count : info.getNumOfVirtualBarriers = barrierCount) :
    ∃ after, info.addOperands add operands = .ok after ∧
      after.getNumOfVirtualBarriers = barrierCount := by
  refine foldlM_ok (fun info => info.getNumOfVirtualBarriers = barrierCount) operands ?_ info
    count
  intro bar mem info count
  rw [if_pos (count.symm ▸ inside bar mem)]
  exact ⟨_, rfl, (kept info bar).trans count⟩

omit [LinearOrder Queue] in
theorem addTaskOp_ok {barrierCount taskInd : Nat} {taskOp : TaskOp Queue}
    (inside : ∀ bar, bar ∈ taskOp.waitBarriers ∨ bar ∈ taskOp.updateBarriers → bar < barrierCount)
    (info : BarrierInfo Queue) (count : info.getNumOfVirtualBarriers = barrierCount) :
    ∃ after, info.addTaskOp taskInd taskOp = .ok after ∧
      after.getNumOfVirtualBarriers = barrierCount := by
  obtain ⟨middle, waits, same⟩ := addOperands_ok (fun info bar => info.addConsumer bar taskInd)
    (fun _ _ => rfl) taskOp.waitBarriers (fun bar mem => inside bar (.inl mem)) info count
  obtain ⟨after, updates, final⟩ := addOperands_ok (fun info bar => info.addProducer bar taskInd)
    (fun _ _ => length_rows_link) taskOp.updateBarriers
    (fun bar mem => inside bar (.inr mem)) middle same
  refine ⟨after, ?_, final⟩
  unfold addTaskOp
  rw [waits]
  exact updates

omit [LinearOrder Queue] in
/-- Operations whose operands are barriers are refused for their sync tasks only. -/
theorem buildBarrierMaps_error_iff {barrierCount : Nat} {taskOps : List (TaskOp Queue)}
    (inside : ∀ taskOp ∈ taskOps, ∀ bar, bar ∈ taskOp.waitBarriers ∨ bar ∈ taskOp.updateBarriers →
      bar < barrierCount) :
    (∃ failure, buildBarrierMaps taskOps barrierCount = .error failure) ↔
      ¬ SyncTasksEven taskOps := by
  have added : ∀ initial : BarrierInfo Queue, initial.getNumOfVirtualBarriers = barrierCount →
      ∃ after, taskOps.zipIdx.foldlM (fun info task => info.addTaskOp task.2 task.1) initial =
        .ok after := by
    intro initial count
    obtain ⟨after, ran, _⟩ := foldlM_ok
      (fun info : BarrierInfo Queue => info.getNumOfVirtualBarriers = barrierCount) taskOps.zipIdx
      (fun task mem info same => addTaskOp_ok (inside task.1 (fst_mem_of_mem_zipIdx mem))
        info same) initial count
    exact ⟨after, ran⟩
  have outcome : ∀ (blockSize : Nat) (ids : List Nat), ((∃ failure,
      (checkSyncTasks blockSize ids >>= fun _ => taskOps.zipIdx.foldlM
        (fun (info : BarrierInfo Queue) task => info.addTaskOp task.2 task.1)
          ⟨taskOps, blockSize, ids, .empty barrierCount taskOps.length,
            .empty barrierCount taskOps.length⟩) = .error failure) ↔
        ¬ checkSyncTasks blockSize ids = .ok ()) := by
    intro blockSize ids
    cases check : checkSyncTasks blockSize ids with
    | error failure => exact iff_of_true ⟨failure, rfl⟩ (by simp)
    | ok value =>
      obtain ⟨after, ran⟩ := added ⟨taskOps, blockSize, ids, .empty barrierCount taskOps.length,
        .empty barrierCount taskOps.length⟩ (by simp [getNumOfVirtualBarriers])
      refine iff_of_false ?_ fun impossible => impossible rfl
      rintro ⟨failure, failed⟩
      cases ran.symm.trans failed
  -- The block size that is checked matters only when there are sync tasks.
  unfold buildBarrierMaps SyncTasksEven
  cases taskOps.findIdxs TaskOp.syncTask with
  | nil => exact (outcome 0 []).trans (by simp [checkSyncTasks])
  | cons first rest =>
    exact (outcome (first + 1) (first :: rest)).trans
      (checkSyncTasks_ok_iff (first + 1) (first :: rest)).not

section

variable (valid : info.Valid)
include valid

omit [LinearOrder Queue] in
theorem barrierOrder_perm (nodup : barriers.Nodup)
    (listed : ∀ barrier, barrier ∈ barriers ↔ IsUsed info barrier) :
    (barrierOrder info barriers).Perm (List.range info.getNumOfVirtualBarriers) := by
  unfold barrierOrder
  refine (perm_ext_iff_of_nodup ?_ nodup_range).mpr fun barrier => ?_
  · refine nodup_append.mpr ⟨nodup, nodup_range.filter _, fun first inFirst second
      inSecond same => ?_⟩
    exact of_decide_eq_true (mem_filter.mp inSecond).2 (same ▸ inFirst)
  · rw [mem_append, mem_filter, decide_eq_true_eq, mem_range]
    constructor
    · rintro (used | rest)
      · exact ((listed barrier).mp used).lt valid
      · exact rest.1
    · intro inside
      by_cases mem : barrier ∈ barriers
      · exact .inl mem
      · exact .inr ⟨inside, mem⟩

variable {order : ExecutionOrder}

omit [LinearOrder Queue] in
theorem reorderedTaskOps_inside (nodup : order.newBarrierOrder.Nodup)
    (listed : ∀ barrier, barrier ∈ order.newBarrierOrder ↔ IsUsed info barrier)
    (taskOp : TaskOp Queue) (mem : taskOp ∈ reorderedTaskOps info order) (bar : Nat)
    (operand : bar ∈ taskOp.waitBarriers ∨ bar ∈ taskOp.updateBarriers) :
    bar < info.getNumOfVirtualBarriers := by
  have perm := barrierOrder_perm valid nodup listed
  obtain ⟨taskInd, _, found⟩ := mem_filterMap.mp mem
  obtain ⟨old, _, updated⟩ := Option.map_eq_some_iff.mp found
  rw [← updated] at operand
  have place : ∀ barrier < info.getNumOfVirtualBarriers,
      (barrierOrder info order.newBarrierOrder).idxOf barrier < info.getNumOfVirtualBarriers := by
    intro barrier inside
    have bound := idxOf_lt_length_of_mem (perm.mem_iff.mpr (mem_range.mpr inside))
    rw [perm.length_eq, length_range] at bound
    exact bound
  rcases operand with waits | updates
  · obtain ⟨barrier, waited, same⟩ := mem_map.mp waits
    exact same ▸ place barrier (valid.barrier_lt .wait ((valid.mirrored .wait _ _).mp waited))
  · obtain ⟨barrier, produced, same⟩ := mem_map.mp updates
    exact same ▸ place barrier (valid.barrier_lt .update ((valid.mirrored .update _ _).mp produced))

/-- Nothing is left when there is no order of the tasks, when a task waits for a barrier without
producers, and when the sync tasks are not at equal distances in the order that is found. -/
theorem orderExecutionTasksAndBarriers_error_iff :
    (∃ failure, orderExecutionTasksAndBarriers info orderByConsumption = .error failure) ↔
      (¬ ∃ order, IsTaskOrder info order) ∨ ¬ WaitsProduced info ∨
        ∃ order, simulateExecution info orderByConsumption = .ok order ∧
          ¬ SyncTasksEven (reorderedTaskOps info order) := by
  have sim : (∃ order, simulateExecution info orderByConsumption = .ok order ∧
      IsExecutionOrder info order ∧ WaitsProduced info) ∨ _ := simulateExecution_spec valid
  rcases sim with ⟨order, simulated, isOrder, produced⟩ | ⟨failed, none⟩
  · have refused := buildBarrierMaps_error_iff
      (reorderedTaskOps_inside valid isOrder.barriers_nodup isOrder.mem_barriers)
    have fails : (∃ failure, orderExecutionTasksAndBarriers info orderByConsumption =
        .error failure) ↔ ∃ failure, buildBarrierMaps (reorderedTaskOps info order)
          info.getNumOfVirtualBarriers = .error failure := by
      unfold orderExecutionTasksAndBarriers
      rw [simulated]
      dsimp only [Bind.bind, Except.bind]
      split
      · next built => simp [built, pure, Except.pure]
      · next failure built => exact iff_of_true ⟨_, rfl⟩ ⟨failure, built⟩
    rw [fails, refused]
    constructor
    · exact fun uneven => .inr (.inr ⟨order, simulated, uneven⟩)
    · rintro (missing | unproduced | ⟨other, same, uneven⟩)
      · exact absurd ⟨_, isOrder.tasks⟩ missing
      · exact absurd produced unproduced
      · exact Except.ok.inj (simulated.symm.trans same) ▸ uneven
  · refine iff_of_true ⟨.simulateExecution, ?_⟩ ?_
    · unfold orderExecutionTasksAndBarriers
      rw [failed]
      rfl
    · by_cases produced : WaitsProduced info
      · exact .inl fun some => none some.choose some.choose_spec produced
      · exact .inr (.inl produced)

theorem orderExecutionTasksAndBarriers_isExecutionOrder {rebuilt : BarrierInfo Queue}
    (res : orderExecutionTasksAndBarriers info orderByConsumption = .ok (order, rebuilt)) :
    IsExecutionOrder info order := by
  obtain ⟨found, simulated, rest⟩ := bind_ok res
  have final : found = order := by
    split at rest
    · exact (Prod.mk.inj (Except.ok.inj rest)).1
    · cases rest
  have sim : (∃ order, simulateExecution info orderByConsumption = .ok order ∧
      IsExecutionOrder info order ∧ WaitsProduced info) ∨ _ := simulateExecution_spec valid
  rcases sim with ⟨other, same, isOrder, _⟩ | ⟨failed, _⟩
  · rw [← final, Except.ok.inj (simulated.symm.trans same)]
    exact isOrder
  · exact nomatch simulated.symm.trans failed

end

omit [LinearOrder Queue] in
theorem syncTasksEven_of_unmarked (unmarked : ∀ taskOp ∈ info.allTaskOps, taskOp.syncTask = false)
    (order : ExecutionOrder) : SyncTasksEven (reorderedTaskOps info order) := by
  have empty : (reorderedTaskOps info order).findIdxs TaskOp.syncTask = [] := by
    rw [findIdxs_eq_nil_iff]
    intro taskOp mem
    obtain ⟨taskInd, _, found⟩ := mem_filterMap.mp mem
    obtain ⟨old, original, updated⟩ := Option.map_eq_some_iff.mp found
    rw [← updated]
    exact unmarked old (mem_of_getElem? original)
  unfold SyncTasksEven
  rw [empty]
  exact List.IsChain.nil

/-- The orders that are left are orders of an execution, and it is known when none are left.
Without sync tasks it is when there is no order or a task waits for a barrier without producers. -/
theorem orderExecutionTasksAndBarriers_spec (info : BarrierInfo Queue) (valid : info.Valid)
    (orderByConsumption : Bool) :
    (∀ order rebuilt, orderExecutionTasksAndBarriers info orderByConsumption =
        .ok (order, rebuilt) → IsExecutionOrder info order) ∧
      ((∃ failure, orderExecutionTasksAndBarriers info orderByConsumption = .error failure) ↔
        (¬ ∃ order, IsTaskOrder info order) ∨ ¬ WaitsProduced info ∨
          ∃ order, simulateExecution info orderByConsumption = .ok order ∧
            ¬ SyncTasksEven (reorderedTaskOps info order)) ∧
      ((∀ taskOp ∈ info.allTaskOps, taskOp.syncTask = false) →
        ∀ order, SyncTasksEven (reorderedTaskOps info order)) :=
  ⟨fun _ _ res => orderExecutionTasksAndBarriers_isExecutionOrder valid res,
    orderExecutionTasksAndBarriers_error_iff valid, syncTasksEven_of_unmarked⟩

/-- The first task waits for a barrier that the second one, of another queue, updates. -/
def crossed : BarrierInfo Nat where
  allTaskOps := [⟨0, 1, [0], [], false⟩, ⟨1, 1, [], [0], false⟩]
  controlGraphBlockSize := 0
  syncTasksIds := []
  updates := (IncidenceTable.empty 1 2).link 0 1
  waits := (IncidenceTable.empty 1 2).link 0 0

theorem crossed_valid : crossed.Valid := by
  refine ⟨fun side => ?_, fun side => by cases side <;> rfl, fun side => by cases side <;> rfl,
    fun _ => rfl⟩
  have empty : (empty 1 2 : IncidenceTable 16).Mirrored := mirrored_empty 1 2
  cases side with
  | update => exact empty.link Nat.zero_lt_one Nat.one_lt_two
  | wait => exact empty.link Nat.zero_lt_one Nat.zero_lt_two

theorem orderExecutionTasksAndBarriers_spec_crossed :
    ∃ order rebuilt, orderExecutionTasksAndBarriers crossed false = .ok (order, rebuilt) ∧
      order = ⟨[1, 0], [0]⟩ ∧ IsExecutionOrder crossed order := by
  obtain ⟨⟨order, rebuilt⟩, res, found⟩ := exists_ok
    (orderExecutionTasksAndBarriers crossed false) (fun res => res.1 = ⟨[1, 0], [0]⟩)
    (by decide +kernel)
  exact ⟨order, rebuilt, res, of_decide_eq_true found,
    (orderExecutionTasksAndBarriers_spec crossed crossed_valid false).1 order rebuilt res⟩

/-! ### A barrier without producers -/

/-- One task that waits for a barrier no task updates. -/
def onlyConsumer : BarrierInfo Nat where
  allTaskOps := [⟨0, 1, [0], [], false⟩]
  controlGraphBlockSize := 0
  syncTasksIds := []
  updates := .empty 1 1
  waits := (IncidenceTable.empty 1 1).link 0 0

theorem onlyConsumer_valid : onlyConsumer.Valid := by
  refine ⟨fun side => ?_, fun side => by cases side <;> rfl, fun side => by cases side <;> rfl,
    fun _ => rfl⟩
  have empty : (empty 1 1 : IncidenceTable 16).Mirrored := mirrored_empty 1 1
  cases side with
  | update => exact empty
  | wait => exact empty.link Nat.zero_lt_one Nat.zero_lt_one

/-- There is an order, but the simulation fails. -/
theorem onlyConsumer_refused :
    ¬ ∀ info : BarrierInfo Nat, info.Valid → ∀ orderByConsumption,
      ((∃ failure, orderExecutionTasksAndBarriers info orderByConsumption = .error failure) ↔
        ¬ ∃ order, IsTaskOrder info order) := by
  intro claimed
  have unproduced : ¬ WaitsProduced onlyConsumer := by
    intro produced
    obtain ⟨producer, linked⟩ := produced 0 0 (by decide)
    exact not_linked_empty 1 1 linked
  refine (claimed onlyConsumer onlyConsumer_valid false).mp
    ((orderExecutionTasksAndBarriers_error_iff onlyConsumer_valid).mpr (.inr (.inl unproduced)))
    ⟨[0], .refl _, ?_, ?_⟩
  · rintro first second ⟨less, queue, _, own⟩
    have bound : second < 1 := lt_of_queueOf own
    omega
  · rintro producer consumer ⟨barrier, linked, _⟩
    exact absurd linked (not_linked_empty 1 1)

end NpuPlugin.BarrierLegalization
