/-
This file is about the counts of the barriers. The simulator recognises a DMA task on several queues
by an item that is recorded under the port numbers and searched under the positions of the queues.
When the two agree, the counts are right at every moment.
-/

import Mathlib.Algebra.Order.BigOperators.Group.Finset
import Mathlib.Algebra.Order.Ring.Int
import NpuPlugin.BarrierSimulator.Runs

namespace NpuPlugin.BarrierSimulator

open Finset Option Prod

/-! ### What is left of a count -/

section

open Classical in
/-- What the tasks that are not done amount to. -/
noncomputable def outstanding (amount : Nat → Int) (total : Nat) (done : Nat → Prop) : Int :=
  ∑ task ∈ range total, if done task then 0 else amount task

variable {amount : Nat → Int} {total : Nat} {done after : Nat → Prop}

theorem outstanding_none : outstanding amount total (fun _ => False) =
    ∑ task ∈ range total, amount task :=
  sum_congr rfl fun _ _ => if_neg not_false

theorem outstanding_congr (same : ∀ task < total, amount task ≠ 0 → (done task ↔ after task)) :
    outstanding amount total done = outstanding amount total after := by
  refine sum_congr rfl fun task mem => ?_
  by_cases zero : amount task = 0
  · rw [zero, ite_self, ite_self]
  · have equal := same task (mem_range.mp mem) zero
    by_cases finished : done task
    · rw [if_pos finished, if_pos (equal.mp finished)]
    · rw [if_neg finished, if_neg (fun other => finished (equal.mpr other))]

variable {task : Nat}

theorem outstanding_finish (inside : task < total) (pending : ¬ done task)
    (finished : ∀ other, after other ↔ done other ∨ other = task) :
    outstanding amount total after = outstanding amount total done - amount task := by
  classical
  have mem : task ∈ range total := mem_range.mpr inside
  unfold outstanding
  rw [← add_sum_erase _ _ mem, ← add_sum_erase _
    (fun other => if done other then 0 else amount other) mem,
    if_pos ((finished task).mpr (.inr rfl)), if_neg pending]
  have rest : ∑ other ∈ (range total).erase task, (if after other then 0 else amount other) =
      ∑ other ∈ (range total).erase task, if done other then 0 else amount other := by
    refine sum_congr rfl fun other erased => ?_
    have different := ne_of_mem_erase erased
    by_cases before : done other
    · rw [if_pos before, if_pos ((finished other).mpr (.inl before))]
    · rw [if_neg before, if_neg fun later => ((finished other).mp later).elim before different]
  rw [rest]
  ring

section

variable (nonneg : ∀ other, 0 ≤ amount other)
include nonneg

theorem le_outstanding (inside : task < total) (pending : ¬ done task) :
    amount task ≤ outstanding amount total done := by
  classical
  have terms : ∀ other ∈ range total, 0 ≤ if done other then 0 else amount other := by
    intro other _
    split
    · exact le_refl _
    · exact nonneg other
  have part : (if done task then 0 else amount task) ≤ outstanding amount total done :=
    single_le_sum terms (mem_range.mpr inside)
  rw [if_neg pending] at part
  exact part

theorem outstanding_nonneg : 0 ≤ outstanding amount total done := by
  refine sum_nonneg fun other _ => ?_
  split
  · exact le_refl _
  · exact nonneg other

theorem outstanding_eq_zero :
    outstanding amount total done = 0 ↔ ∀ task < total, amount task ≠ 0 → done task := by
  unfold outstanding
  rw [sum_eq_zero_iff_of_nonneg fun other _ => by
    split
    · exact le_refl _
    · exact nonneg other]
  refine ⟨fun zero task inside nonzero => ?_, fun all task mem => ?_⟩
  · by_contra pending
    have equal := zero task (mem_range.mpr inside)
    rw [if_neg pending] at equal
    exact nonzero equal
  · by_cases zero : amount task = 0
    · rw [zero, ite_self]
    · rw [if_pos (all task (mem_range.mp mem) zero)]

end

end

/-- What a task adds to the consumers of a barrier, by its position. -/
def consumesAt (tasks : List TaskOp) (v task : Nat) : Int :=
  (tasks[task]?.map fun taskOp => taskOp.consumes v).getD 0

/-- What a task adds to the producers of a barrier, by its position. -/
def producesAt (tasks : List TaskOp) (v task : Nat) : Int :=
  (tasks[task]?.map fun taskOp => taskOp.produces v).getD 0

variable {task : Nat} {taskOp : TaskOp} (tasks : List TaskOp)

section

variable {tasks : List TaskOp} (found : tasks[task]? = some taskOp) (v : Nat)
include found v

theorem consumesAt_of_getElem? :
    consumesAt tasks v task = taskOp.amount * taskOp.waitBarriers.count v := by
  rw [consumesAt, found]
  rfl

theorem producesAt_of_getElem? :
    producesAt tasks v task = taskOp.amount * taskOp.updateBarriers.count v := by
  rw [producesAt, found]
  rfl

end

theorem consumesAt_nonneg (v task : Nat) : 0 ≤ consumesAt tasks v task := by
  unfold consumesAt
  cases tasks[task]? with
  | none => exact le_refl _
  | some taskOp => exact mul_nonneg taskOp.amount_pos.le (Int.natCast_nonneg _)

theorem producesAt_nonneg (v task : Nat) : 0 ≤ producesAt tasks v task := by
  unfold producesAt
  cases tasks[task]? with
  | none => exact le_refl _
  | some taskOp => exact mul_nonneg taskOp.amount_pos.le (Int.natCast_nonneg _)

theorem sum_map_eq_sum_range (amount : TaskOp → Int) :
    (tasks.map amount).sum =
      ∑ task ∈ range tasks.length, (tasks[task]?.map amount).getD 0 := by
  induction tasks using List.reverseRecOn with
  | nil => rfl
  | append_singleton rest last ih =>
    rw [List.map_append, List.sum_append, ih, List.length_append,
      List.length_singleton, sum_range_succ, List.getElem?_concat_length, List.map_singleton,
      List.sum_singleton]
    refine congrArg₂ _ (sum_congr rfl fun task mem => ?_) rfl
    rw [List.getElem?_append_left (mem_range.mp mem)]

/-! ### Items of tasks on several queues -/

/-- An entry of a queue with its place. -/
structure Entry where
  index : Nat
  position : Nat
  user : BarrierUserConfig
deriving DecidableEq

variable (sim : Simulator)

def Simulator.entries : List Entry :=
  sim.queues.zipIdx.flatMap fun queue => queue.1.zipIdx.map fun entry => ⟨queue.2, entry.2, entry.1⟩

def Simulator.itemOf (index position : Nat) : Option Nat :=
  if index < sim.dmaTasks.length then
    sim.multiQueueDmaTaskStatus.findIdx? fun item => item.1.contains ((index : Int), position)
  else none

def Simulator.UsesBarriers (user : BarrierUserConfig) : Prop :=
  sim.vdt.waits user.virtualDep ++ sim.vdt.posts user.virtualDep ≠ []

instance (sim : Simulator) (user : BarrierUserConfig) : Decidable (sim.UsesBarriers user) :=
  inferInstanceAs (Decidable (_ ≠ []))

/-- The search finds one item for all places of a task that uses barriers, and no other task at
this item. A task with a single place needs no item. -/
def Simulator.ItemsAgree : Prop :=
  ∀ first ∈ sim.entries, sim.UsesBarriers first.user → ∀ second ∈ sim.entries,
    if first.user.task = second.user.task then
      (first.index = second.index ∧ first.position = second.position) ∨
        (sim.itemOf first.index first.position ≠ none ∧
          sim.itemOf first.index first.position = sim.itemOf second.index second.position)
    else
      sim.itemOf first.index first.position = none ∨
        sim.itemOf first.index first.position ≠ sim.itemOf second.index second.position

instance (sim : Simulator) : Decidable sim.ItemsAgree :=
  inferInstanceAs (Decidable (∀ first ∈ sim.entries, _ → ∀ second ∈ sim.entries, _))

variable {sim : Simulator} {index position : Nat} {user : BarrierUserConfig}
  {otherIndex otherPosition : Nat} {other : BarrierUserConfig}

theorem mem_entries (found : (sim.queue index)[position]? = some user) :
    ⟨index, position, user⟩ ∈ sim.entries := by
  unfold Simulator.queue at found
  rw [List.getD_eq_getElem?_getD] at found
  cases queue : sim.queues[index]? with
  | none =>
    rw [queue] at found
    cases found
  | some entries =>
    rw [queue] at found
    refine List.mem_flatMap.mpr ⟨(entries, index), ?_, List.mem_map.mpr ⟨(user, position), ?_, rfl⟩⟩
    · exact List.mem_zipIdx_iff_getElem?.mpr queue
    · exact List.mem_zipIdx_iff_getElem?.mpr found

theorem Simulator.index_lt (found : (sim.queue index)[position]? = some user) :
    index < sim.queues.length := by
  by_contra late
  rw [Simulator.queue, List.getD_eq_getElem?_getD, List.getElem?_eq_none (not_lt.mp late)] at found
  cases found

section

variable (agree : sim.ItemsAgree) (found : (sim.queue index)[position]? = some user)
  (otherFound : (sim.queue otherIndex)[otherPosition]? = some other) (uses : sim.UsesBarriers user)
include agree found otherFound uses

theorem Simulator.ItemsAgree.together (same : user.task = other.task)
    (apart : ¬ (index = otherIndex ∧ position = otherPosition)) :
    ∃ item, sim.itemOf index position = some item ∧
      sim.itemOf otherIndex otherPosition = some item := by
  have rule := agree _ (mem_entries found) uses _ (mem_entries otherFound)
  rw [if_pos same] at rule
  rcases rule with place | ⟨exists_item, equal⟩
  · exact absurd place apart
  · obtain ⟨item, held⟩ := ne_none_iff_exists'.mp exists_item
    exact ⟨item, held, equal ▸ held⟩

theorem Simulator.ItemsAgree.apart (different : user.task ≠ other.task) {item : Nat}
    (held : sim.itemOf index position = some item) :
    sim.itemOf otherIndex otherPosition ≠ some item := by
  have rule := agree _ (mem_entries found) uses _ (mem_entries otherFound)
  rw [if_neg different] at rule
  rcases rule with none | ne
  · rw [held] at none
    cases none
  · intro equal
    exact ne (held.trans equal.symm)

end

/-! ### The invariant -/

/-- Some entry of the task is behind. -/
def Done (sim : Simulator) (state : State) (task : Nat) : Prop :=
  ∃ index position user, position < state.head index ∧
    (sim.queue index)[position]? = some user ∧ user.task = task

/-- The counts are what the tasks that are not done amount to, and the marks of the items say
which tasks are done. -/
structure Accounted (tasks : List TaskOp) (sim : Simulator) (state : State) : Prop where
  length : state.slots.barriers.length = sim.barriers.length
  heads : state.heads.length = sim.queues.length
  keys : state.multiQueueDmaTaskStatus.map Prod.fst = sim.multiQueueDmaTaskStatus.map Prod.fst
  consumers : ∀ v < sim.barriers.length, (state.slots.config v).consumerCount =
    outstanding (consumesAt tasks v) tasks.length (Done sim state)
  producers : ∀ v < sim.barriers.length, (state.slots.config v).producerCount =
    outstanding (producesAt tasks v) tasks.length (Done sim state)
  marked : ∀ index position user item, (sim.queue index)[position]? = some user →
    sim.UsesBarriers user → sim.itemOf index position = some item →
    (isProcessed state (some item) = true ↔ Done sim state user.task)

variable {user : BarrierUserConfig}

section

variable {prog : Program} {sim : Simulator} {state : State}

theorem multiQueueItem_eq (accounted : Accounted prog.tasks sim state) (index : Nat) :
    multiQueueItem sim state index = sim.itemOf index (state.head index) := by
  have search : ∀ items : List (List DmaTaskIdx × Bool),
      items.findIdx? (fun item => item.1.contains ((index : Int), state.head index)) =
        (items.map fst).findIdx? fun key => key.contains ((index : Int), state.head index) :=
    fun items => (List.findIdx?_map ..).symm
  unfold multiQueueItem Simulator.itemOf
  rw [search, search, accounted.keys]

section

variable {index position : Nat} (parsed : ParsedTasks prog prog.tasks sim)
  (found : (sim.queue index)[position]? = some user)
include parsed found

theorem ParsedTasks.entry : ∃ taskOp, prog.tasks[user.task]? = some taskOp ∧
      sim.vdt.waits user.virtualDep = taskOp.waitBarriers ∧
      sim.vdt.posts user.virtualDep = taskOp.updateBarriers ∧ user.count = taskOp.amount := by
  unfold Simulator.queue at found
  rw [List.getD_eq_getElem?_getD] at found
  cases queue : sim.queues[index]? with
  | none =>
    rw [queue] at found
    cases found
  | some entries =>
    rw [queue] at found
    exact (parsed.entries entries (List.mem_of_getElem? queue) user
      (List.mem_of_getElem? found)).made

theorem ParsedTasks.usesBarriers_iff
    (otherFound : (sim.queue otherIndex)[otherPosition]? = some other)
    (same : user.task = other.task) : sim.UsesBarriers user ↔ sim.UsesBarriers other := by
  obtain ⟨taskOp, held, waits, posts, _⟩ := parsed.entry found
  obtain ⟨otherOp, otherHeld, otherWaits, otherPosts, _⟩ := parsed.entry otherFound
  rw [same, otherHeld, some.injEq] at held
  unfold Simulator.UsesBarriers
  rw [waits, posts, otherWaits, otherPosts, held]

end

/-! ### Advancing a queue -/

theorem head_passTask (inside : index < state.heads.length) (other : Nat) :
    (passTask state index).head other =
      if other = index then state.head index + 1 else state.head other := by
  unfold passTask State.head
  simp only [List.getD_eq_getElem?_getD, List.getElem?_modify]
  by_cases same : other = index
  · rw [if_pos same, same, List.getElem?_eq_getElem inside]
    simp
  · rw [if_neg same]
    cases state.heads[other]? with
    | none => rfl
    | some head => simp [Ne.symm same]

theorem done_passTask (inside : index < state.heads.length)
    (found : (sim.queue index)[state.head index]? = some user) (task : Nat) :
    Done sim (passTask state index) task ↔ Done sim state task ∨ task = user.task := by
  constructor
  · rintro ⟨other, position, entry, behind, held, same⟩
    rw [head_passTask inside] at behind
    by_cases equal : other = index
    · rw [if_pos equal] at behind
      by_cases last : position = state.head index
      · rw [equal, last, found, some.injEq] at held
        exact .inr (same ▸ congrArg BarrierUserConfig.task held.symm)
      · exact .inl ⟨other, position, entry, by rw [equal]; omega, held, same⟩
    · rw [if_neg equal] at behind
      exact .inl ⟨other, position, entry, behind, held, same⟩
  · rintro (⟨other, position, entry, behind, held, same⟩ | same)
    · refine ⟨other, position, entry, ?_, held, same⟩
      rw [head_passTask inside]
      split
      · next equal =>
        rw [equal] at behind
        omega
      · exact behind
    · refine ⟨index, state.head index, user, ?_, found, same.symm⟩
      rw [head_passTask inside, if_pos rfl]
      exact Nat.lt_succ_self _

variable {slots : Slots}

theorem isProcessed_finishTask {item : Option Nat} (other : Nat)
    (inside : ∀ found, item = some found → found < state.multiQueueDmaTaskStatus.length) :
    isProcessed (finishTask state index item slots) (some other) = true ↔
      isProcessed state (some other) = true ∨ item = some other := by
  cases item with
  | none => simp [finishTask, passTask, isProcessed]
  | some found =>
    have bound := inside found rfl
    unfold finishTask passTask isProcessed
    simp only [List.getD_eq_getElem?_getD, List.getElem?_modify, some.injEq]
    by_cases same : found = other
    · rw [← same, List.getElem?_eq_getElem bound]
      simp
    · cases state.multiQueueDmaTaskStatus[other]? with
      | none => simp [same]
      | some entry => simp [same]

theorem amount_unused (parsed : ParsedTasks prog prog.tasks sim)
    (found : (sim.queue index)[position]? = some user) (unused : ¬ sim.UsesBarriers user)
    (v : Nat) : consumesAt prog.tasks v user.task = 0 ∧ producesAt prog.tasks v user.task = 0 := by
  obtain ⟨taskOp, held, waits, posts, _⟩ := parsed.entry found
  unfold Simulator.UsesBarriers at unused
  rw [waits, posts, not_not, List.append_eq_nil_iff] at unused
  rw [consumesAt_of_getElem? held, producesAt_of_getElem? held, unused.1, unused.2]
  simp

theorem not_done_of_pending (agree : sim.ItemsAgree) (accounted : Accounted prog.tasks sim state)
    (found : (sim.queue index)[state.head index]? = some user) (uses : sim.UsesBarriers user)
    (pending : isProcessed state (multiQueueItem sim state index) = false) :
    ¬ Done sim state user.task := by
  rw [multiQueueItem_eq accounted] at pending
  intro done
  cases held : sim.itemOf index (state.head index) with
  | some item =>
    rw [held] at pending
    have marked := (accounted.marked index _ user item found uses held).mpr done
    rw [pending] at marked
    cases marked
  | none =>
    obtain ⟨other, position, entry, behind, otherFound, same⟩ := done
    obtain ⟨item, first, _⟩ := agree.together found otherFound uses same.symm
      (fun place => by rw [← place.1, ← place.2] at behind; exact lt_irrefl _ behind)
    rw [held] at first
    cases first

/-- Passing a task that was processed in another queue changes no count. -/
theorem passTask_accounted (parsed : ParsedTasks prog prog.tasks sim)
    (accounted : Accounted prog.tasks sim state)
    (found : (sim.queue index)[state.head index]? = some user)
    (processed : isProcessed state (multiQueueItem sim state index) = true) :
    Accounted prog.tasks sim (passTask state index) := by
  have inside : index < state.heads.length := by
    rw [accounted.heads]
    exact Simulator.index_lt found
  rw [multiQueueItem_eq accounted] at processed
  have kept : ∀ (other position : Nat) (entry : BarrierUserConfig), (sim.queue other)[position]? =
    some entry →
      sim.UsesBarriers entry →
      (Done sim state entry.task ↔ Done sim (passTask state index) entry.task) := by
    intro other position entry held uses
    rw [done_passTask inside found]
    refine ⟨.inl, fun later => later.elim id fun same => ?_⟩
    cases item : sim.itemOf index (state.head index) with
    | none =>
      rw [item] at processed
      cases processed
    | some number =>
      rw [item] at processed
      rw [same]
      exact (accounted.marked index _ user number found
        ((parsed.usesBarriers_iff held found same).mp uses) item).mp processed
  have counts : ∀ amount : Nat → Int, (¬ sim.UsesBarriers user → amount user.task = 0) →
      outstanding amount prog.tasks.length (Done sim (passTask state index)) =
        outstanding amount prog.tasks.length (Done sim state) := by
    intro amount unused
    refine outstanding_congr fun task _ nonzero => ?_
    rw [done_passTask inside found]
    refine ⟨fun later => later.elim id fun same => ?_, .inl⟩
    by_cases uses : sim.UsesBarriers user
    · rw [same]
      exact (kept index (state.head index) user found uses).mpr
        ((done_passTask inside found _).mpr (.inr rfl))
    · rw [same] at nonzero
      exact absurd (unused uses) nonzero
  refine ⟨accounted.length, ?_, accounted.keys, fun v bound => ?_, fun v bound => ?_,
    fun other position entry item held uses itemHeld => ?_⟩
  · exact (List.length_modify ..).trans accounted.heads
  · rw [counts _ fun unused => (amount_unused parsed found unused v).1]
    exact accounted.consumers v bound
  · rw [counts _ fun unused => (amount_unused parsed found unused v).2]
    exact accounted.producers v bound
  · rw [← kept other position entry held uses]
    exact accounted.marked other position entry item held uses itemHeld

/-- Processing a task takes what it amounts to away from the counts, once. -/
theorem finishTask_accounted (agree : sim.ItemsAgree)
    (parsed : ParsedTasks prog prog.tasks sim) (accounted : Accounted prog.tasks sim state)
    (found : (sim.queue index)[state.head index]? = some user)
    (pending : isProcessed state (multiQueueItem sim state index) = false)
    (applied : applyDep sim.isDynamicBarriers user.count (sim.vdt.waits user.virtualDep)
      (sim.vdt.posts user.virtualDep) state.slots = some slots) :
    Accounted prog.tasks sim
      (finishTask state index (multiQueueItem sim state index) slots) := by
  have inside : index < state.heads.length := by
    rw [accounted.heads]
    exact Simulator.index_lt found
  obtain ⟨taskOp, held, waits, posts, count⟩ := parsed.entry found
  have mem : user ∈ sim.queue index := List.mem_of_getElem? found
  have counts := fun w => applyDep_counts (parsed.wellFormed.positive index user mem)
    (fun v inside => by
      rw [accounted.length]
      exact parsed.wellFormed.declared index user mem v inside) applied w
  have bound : user.task < prog.tasks.length := (List.getElem?_eq_some_iff.mp held).1
  have finished : ∀ task, Done sim (finishTask state index (multiQueueItem sim state index) slots)
      task ↔ Done sim state task ∨ task = user.task := done_passTask inside found
  have left : ∀ amount : Nat → Int, (¬ sim.UsesBarriers user → amount user.task = 0) →
      outstanding amount prog.tasks.length
        (Done sim (finishTask state index (multiQueueItem sim state index) slots)) =
        outstanding amount prog.tasks.length (Done sim state) - amount user.task := by
    intro amount unused
    by_cases uses : sim.UsesBarriers user
    · exact outstanding_finish bound
        (not_done_of_pending agree accounted found uses pending) finished
    · rw [unused uses, sub_zero]
      refine outstanding_congr fun task _ nonzero => ?_
      rw [finished]
      refine ⟨fun later => later.elim id fun same => ?_, .inl⟩
      rw [same] at nonzero
      exact absurd (unused uses) nonzero
  rw [multiQueueItem_eq accounted] at pending finished left ⊢
  have items : ∀ number, sim.itemOf index (state.head index) = some number →
      number < state.multiQueueDmaTaskStatus.length := by
    intro number item
    have same : state.multiQueueDmaTaskStatus.length = sim.multiQueueDmaTaskStatus.length := by
      have lengths := congrArg List.length accounted.keys
      rwa [List.length_map, List.length_map] at lengths
    rw [same]
    unfold Simulator.itemOf at item
    split at item
    · exact (List.findIdx?_eq_some_iff_getElem.mp item).1
    · cases item
  refine ⟨?_, ?_, ?_, fun v small => ?_, fun v small => ?_,
    fun other position entry number otherFound uses itemHeld => ?_⟩
  · exact (applyDep_frame applied).1.trans accounted.length
  · exact (List.length_modify ..).trans accounted.heads
  · rw [← accounted.keys]
    cases sim.itemOf index (state.head index) with
    | none => rfl
    | some number =>
      show (state.multiQueueDmaTaskStatus.modify number fun entry => (entry.1, true)).map fst =
        state.multiQueueDmaTaskStatus.map fst
      refine List.ext_getElem? fun place => ?_
      rw [List.getElem?_map, List.getElem?_map, List.getElem?_modify]
      cases state.multiQueueDmaTaskStatus[place]? with
      | none => rfl
      | some entry => split <;> rfl
  · rw [left _ fun unused => (amount_unused parsed found unused v).1, ← accounted.consumers v small,
      consumesAt_of_getElem? held, ← waits,
      ← count]
    exact (counts v).1
  · rw [left _ fun unused => (amount_unused parsed found unused v).2, ← accounted.producers v small,
      producesAt_of_getElem? held, ← posts,
      ← count]
    exact (counts v).2.1
  · rw [isProcessed_finishTask number items, finished,
      accounted.marked other position entry number otherFound uses itemHeld]
    refine or_congr Iff.rfl ⟨fun itemEqual => ?_, fun same => ?_⟩
    · by_contra different
      exact agree.apart otherFound found uses different itemHeld itemEqual
    · by_cases place : other = index ∧ position = state.head index
      · rw [place.1, place.2] at itemHeld
        exact itemHeld
      · obtain ⟨shared, first, second⟩ := agree.together otherFound found uses same place
        rw [second, ← first, itemHeld]

end

/-! ### A task that is ready does not fail -/

open List Run Slots

section

variable {isDynamic : Bool} {slots after : Slots} {count : Int}

theorem consumeBarrier_mapped {v w : Nat}
    (consumed : consumeBarrier isDynamic count slots w = some after)
    (mapped : isBarrierMapped isDynamic slots v = true)
    (kept : v ≠ w ∨ (slots.config w).consumerCount - count ≠ 0) :
    isBarrierMapped isDynamic after v = true := by
  have ids := consumeBarrier_realId consumed v
  obtain ⟨other, _, _, equal⟩ := consumeBarrier_cases consumed
  split at equal
  · next last =>
    have different : v ≠ w := kept.resolve_right fun more => more last
    unfold isBarrierMapped at mapped other ⊢
    rw [ids, equal]
    split at other
    · cases other
    · next held heldOwner =>
      rw [owner_release _ _ _ _ (by rw [owner_setConsumerCount, heldOwner]; simp),
        owner_setConsumerCount]
      split at mapped
      · cases mapped
      · next value valueOwner =>
        split
        · next none =>
          split at none
          · cases none
          · rw [valueOwner] at none
            cases none
        · next found foundOwner =>
          split at foundOwner
          · next same =>
            -- Both barriers own the slot, which a static run excludes.
            rw [same, heldOwner, Option.some.injEq] at valueOwner
            rw [Bool.or_eq_true, beq_iff_eq] at mapped other ⊢
            rcases mapped with dynamic | equalOwner
            · exact .inl dynamic
            · rcases other with dynamic | equalOther
              · exact .inl dynamic
              · exact absurd (by omega) different
          · rw [valueOwner, Option.some.injEq] at foundOwner
            rw [← foundOwner]
            exact mapped
  · rw [equal]
    unfold isBarrierMapped at mapped ⊢
    rw [realId_setConsumerCount, owner_setConsumerCount]
    exact mapped

theorem consumeAll_succeeds (positive : 0 < count) (vids others : List Nat)
    (declared : ∀ v ∈ vids, v < slots.barriers.length)
    (mapped : ∀ v ∈ vids ++ others, isBarrierMapped isDynamic slots v = true)
    (apart : ∀ v ∈ others, v ∉ vids) (produced : ∀ v ∈ vids, (slots.config v).producerCount = 0)
    (enough : ∀ v ∈ vids, count * vids.count v ≤ (slots.config v).consumerCount) :
    ∃ after, vids.foldlM (consumeBarrier isDynamic count) slots = some after ∧
      ∀ v ∈ others, isBarrierMapped isDynamic after v = true := by
  induction vids generalizing slots with
  | nil => exact ⟨slots, rfl, fun v mem => mapped v (by simpa using mem)⟩
  | cons v rest ih =>
    have first := enough v mem_cons_self
    rw [count_cons_self] at first
    push_cast at first
    rw [mul_add, mul_one] at first
    have share : 0 ≤ count * (rest.count v : Int) := mul_nonneg positive.le (Int.natCast_nonneg _)
    obtain ⟨middle, consumed⟩ :
        ∃ middle, consumeBarrier isDynamic count slots v = some middle := by
      unfold consumeBarrier
      simp only [mapped v (mem_append_left _ mem_cons_self), if_true]
      rw [if_neg (by
        rw [not_or, not_not, not_lt]
        exact ⟨produced v mem_cons_self, by omega⟩)]
      split
      · exact ⟨_, rfl⟩
      · exact ⟨_, rfl⟩
    have counts := consumeBarrier_consumerCount (declared v mem_cons_self) consumed
    have stays : ∀ w ∈ rest ++ others, isBarrierMapped isDynamic middle w = true := by
      intro w mem
      refine consumeBarrier_mapped consumed (mapped w (mem_cons_of_mem _ mem)) ?_
      by_cases same : w = v
      · refine .inr ?_
        have again : w ∈ rest := by
          rcases mem_append.mp mem with inRest | inOthers
          · exact inRest
          · exact absurd (same ▸ mem_cons_self) (apart w inOthers)
        rw [same] at again
        have once : (1 : Int) ≤ rest.count v := by exact_mod_cast count_pos_iff.mpr again
        have more : count ≤ count * (rest.count v : Int) := le_mul_of_one_le_right positive.le once
        omega
      · exact .inl same
    obtain ⟨final, ran, kept⟩ := ih
      (fun w mem => by
        rw [length_consumeBarrier consumed]
        exact declared w (mem_cons_of_mem _ mem)) stays
      (fun w mem inside => apart w mem (mem_cons_of_mem _ inside))
      (fun w mem => by
        rw [consumeBarrier_producerCount consumed]
        exact produced w (mem_cons_of_mem _ mem))
      (fun w mem => by
        rw [counts]
        have total := enough w (mem_cons_of_mem _ mem)
        by_cases same : w = v
        · rw [if_pos same, same]
          omega
        · rw [if_neg same, sub_zero]
          rw [count_cons_of_ne (Ne.symm same)] at total
          exact total)
    refine ⟨final, ?_, kept⟩
    rw [foldlM_cons, consumed]
    exact ran

theorem produceAll_succeeds (positive : 0 < count) (vids : List Nat)
    (declared : ∀ v ∈ vids, v < slots.barriers.length)
    (mapped : ∀ v ∈ vids, isBarrierMapped isDynamic slots v = true)
    (enough : ∀ v ∈ vids, count * vids.count v ≤ (slots.config v).producerCount) :
    ∃ after, vids.foldlM (produceBarrier isDynamic count) slots = some after := by
  induction vids generalizing slots with
  | nil => exact ⟨slots, rfl⟩
  | cons v rest ih =>
    have first := enough v mem_cons_self
    rw [count_cons_self] at first
    push_cast at first
    rw [mul_add, mul_one] at first
    have share : 0 ≤ count * (rest.count v : Int) := mul_nonneg positive.le (Int.natCast_nonneg _)
    obtain ⟨middle, produced⟩ :
        ∃ middle, produceBarrier isDynamic count slots v = some middle := by
      unfold produceBarrier
      simp only [mapped v mem_cons_self, if_true]
      rw [if_neg (by omega)]
      exact ⟨_, rfl⟩
    have counts := produceBarrier_producerCount (declared v mem_cons_self) produced
    have owners : ∀ real, middle.owner real = slots.owner real := by
      intro real
      rw [(produceBarrier_cases produced).2.2, owner_setProducerCount]
    obtain ⟨final, ran⟩ := ih
      (fun w mem => by
        rw [length_produceBarrier produced]
        exact declared w (mem_cons_of_mem _ mem))
      (fun w mem => by
        rw [isBarrierMapped, produceBarrier_realId produced, owners, ← isBarrierMapped]
        exact mapped w (mem_cons_of_mem _ mem))
      (fun w mem => by
        rw [counts]
        have total := enough w (mem_cons_of_mem _ mem)
        by_cases same : w = v
        · rw [if_pos same, same]
          omega
        · rw [if_neg same, sub_zero]
          rw [count_cons_of_ne (Ne.symm same)] at total
          exact total)
    refine ⟨final, ?_⟩
    rw [foldlM_cons, produced]
    exact ran

theorem applyDep_succeeds {waits posts : List Nat} (positive : 0 < count)
    (declared : ∀ v ∈ waits ++ posts, v < slots.barriers.length)
    (ready : isReady isDynamic slots waits posts = true)
    (consumers : ∀ v ∈ waits, count * waits.count v ≤ (slots.config v).consumerCount)
    (producers : ∀ v, count * posts.count v ≤ (slots.config v).producerCount) :
    ∃ after, applyDep isDynamic count waits posts slots = some after := by
  unfold isReady at ready
  simp only [Bool.and_eq_true, List.all_eq_true, decide_eq_true_eq] at ready
  have share : ∀ v, 0 ≤ count * (posts.count v : Int) :=
    fun v => mul_nonneg positive.le (Int.natCast_nonneg _)
  have produced : ∀ v ∈ waits, (slots.config v).producerCount = 0 := fun v mem =>
    le_antisymm (ready.1 v mem).2 ((share v).trans (producers v))
  have apart : ∀ v ∈ posts, v ∉ waits := by
    intro v mem inside
    have none := produced v inside
    have some_left := producers v
    have once : (1 : Int) ≤ posts.count v := by exact_mod_cast count_pos_iff.mpr mem
    have more : count ≤ count * (posts.count v : Int) := le_mul_of_one_le_right positive.le once
    omega
  obtain ⟨middle, consumed, mapped⟩ := consumeAll_succeeds positive waits posts
    (forall_mem_append.mp declared).1
    (fun v mem => by
      rcases mem_append.mp mem with inWaits | inPosts
      · exact (ready.1 v inWaits).1
      · exact ready.2 v inPosts) apart produced consumers
  have counts := consumeAll_counts positive waits
    (forall_mem_append.mp declared).1 consumed
  have length := foldlM_slots
    (fun other => other.barriers.length = slots.barriers.length) waits
    (fun v _ before later kept changed => (length_consumeBarrier changed).trans kept) rfl consumed
  obtain ⟨final, ran⟩ := produceAll_succeeds positive posts
    (fun v mem => by rw [length]; exact declared v (mem_append_right _ mem)) mapped
    (fun v _ => by rw [(counts v).2.1]; exact producers v)
  refine ⟨final, ?_⟩
  rw [applyDep, consumed]
  exact ran

end

section

variable {prog : Program} {sim : Simulator} {state : State}

theorem Accounted.enough (accounted : Accounted prog.tasks sim state)
    (parsed : ParsedTasks prog prog.tasks sim) {index position : Nat}
    (found : (sim.queue index)[position]? = some user) (pending : ¬ Done sim state user.task)
    {v : Nat} (declared : v < sim.barriers.length) :
    user.count * (sim.vdt.waits user.virtualDep).count v ≤ (state.slots.config v).consumerCount ∧
      user.count * (sim.vdt.posts user.virtualDep).count v ≤
        (state.slots.config v).producerCount := by
  obtain ⟨taskOp, held, waits, posts, count⟩ := parsed.entry found
  have bound : user.task < prog.tasks.length := (List.getElem?_eq_some_iff.mp held).1
  rw [waits, posts, count, ← consumesAt_of_getElem? held, ← producesAt_of_getElem? held,
    accounted.consumers v declared, accounted.producers v declared]
  exact ⟨le_outstanding (consumesAt_nonneg prog.tasks v) bound pending,
    le_outstanding (producesAt_nonneg prog.tasks v) bound pending⟩

section

variable (agree : sim.ItemsAgree) (parsed : ParsedTasks prog prog.tasks sim)
  (accounted : Accounted prog.tasks sim state)
include agree parsed accounted

theorem processSim_of_ready {index : Nat} (found : (sim.queue index)[state.head index]? = some user)
    (pending : isProcessed state (multiQueueItem sim state index) = false)
    (ready : isReady sim.isDynamicBarriers state.slots (sim.vdt.waits user.virtualDep)
      (sim.vdt.posts user.virtualDep) = true) :
    ∃ slots, processSim sim.isDynamicBarriers sim.vdt user state.slots = .Success slots := by
  have mem : user ∈ sim.queue index := mem_of_getElem? found
  have declared := parsed.wellFormed.declared index user mem
  obtain ⟨slots, applied⟩ : ∃ slots, applyDep sim.isDynamicBarriers user.count
      (sim.vdt.waits user.virtualDep) (sim.vdt.posts user.virtualDep) state.slots = some slots := by
    by_cases uses : sim.UsesBarriers user
    · have undone := not_done_of_pending agree accounted found uses pending
      have nonneg : ∀ v, 0 ≤ (state.slots.config v).producerCount := by
        intro v
        by_cases inside : v < sim.barriers.length
        · rw [accounted.producers v inside]
          exact outstanding_nonneg (producesAt_nonneg prog.tasks v)
        · rw [config, getD_eq_getElem?_getD,
            getElem?_eq_none (by rw [accounted.length]; exact not_lt.mp inside)]
          exact le_refl _
      refine applyDep_succeeds (parsed.wellFormed.positive index user mem)
        (fun v inside => by rw [accounted.length]; exact declared v inside) ready
        (fun v inside => (accounted.enough parsed found undone
          (declared v (mem_append_left _ inside))).1) fun v => ?_
      by_cases inside : v ∈ sim.vdt.posts user.virtualDep
      · exact (accounted.enough parsed found undone (declared v (mem_append_right _ inside))).2
      · rw [count_eq_zero_of_not_mem inside]
        simpa using nonneg v
    · unfold Simulator.UsesBarriers at uses
      rw [not_not, append_eq_nil_iff] at uses
      rw [uses.1, uses.2]
      exact ⟨state.slots, rfl⟩
  refine ⟨slots, ?_⟩
  unfold processSim
  simp only [ready, if_true, applied]

theorem advanceQueue_ne_exit (index : Nat) (exited : Exit) :
    advanceQueue sim index state ≠ .exit exited := by
  intro turn
  obtain ⟨_, user, found, pending, failed⟩ := advanceQueue_exit turn
  have ready : isReady sim.isDynamicBarriers state.slots (sim.vdt.waits user.virtualDep)
      (sim.vdt.posts user.virtualDep) = true := by
    by_contra waiting
    unfold processSim at failed
    simp only [waiting, if_false] at failed
    cases failed
  obtain ⟨slots, success⟩ := processSim_of_ready agree parsed accounted found pending ready
  rw [success] at failed
  cases failed

end

/-! ### Every turn keeps the counts exact -/

variable {after : State} (settings : Settings)

theorem advanceQueue_accounted (agree : sim.ItemsAgree) (parsed : ParsedTasks prog prog.tasks sim)
    (accounted : Accounted prog.tasks sim state) {index : Nat}
    (turn : (advanceQueue sim index state).LeadsTo after) : Accounted prog.tasks sim after := by
  rcases turn with next | leave
  · obtain ⟨user, found, ⟨processed, equal⟩ | ⟨pending, slots, success, equal⟩⟩ :=
      advanceQueue_next next
    · rw [equal]
      exact passTask_accounted parsed accounted found processed
    · rw [equal]
      exact finishTask_accounted agree parsed accounted found pending
        (processSim_success success).2
  · rw [(advanceQueue_leave leave).1]
    exact accounted

theorem Accounted.congr (accounted : Accounted prog.tasks sim state)
    (length : after.slots.barriers.length = state.slots.barriers.length)
    (heads : after.heads = state.heads)
    (status : after.multiQueueDmaTaskStatus = state.multiQueueDmaTaskStatus)
    (consumers : ∀ v, (after.slots.config v).consumerCount = (state.slots.config v).consumerCount)
    (producers : ∀ v, (after.slots.config v).producerCount = (state.slots.config v).producerCount) :
    Accounted prog.tasks sim after := by
  have done : Done sim after = Done sim state := by
    funext task
    unfold Done State.head
    rw [heads]
  refine ⟨length.trans accounted.length, heads ▸ accounted.heads, status ▸ accounted.keys,
    fun v inside => ?_, fun v inside => ?_, fun index position user item found uses held => ?_⟩
  · rw [consumers, done]
    exact accounted.consumers v inside
  · rw [producers, done]
    exact accounted.producers v inside
  · unfold isProcessed
    rw [status, done]
    exact accounted.marked index position user item found uses held

theorem mapBarrier_accounted (accounted : Accounted prog.tasks sim state)
    (turn : (mapBarrier sim state).LeadsTo after) : Accounted prog.tasks sim after := by
  rcases turn with next | leave
  · obtain ⟨_, _, _, _, _, equal⟩ := mapBarrier_next next
    rw [equal]
    exact accounted.congr length_bindReal rfl rfl consumerCount_bindReal producerCount_bindReal
  · rcases mapBarrier_leave leave with ⟨_, equal⟩ | ⟨_, _, _, equal⟩
    · rw [equal]
      exact accounted
    · rw [equal]
      exact accounted.congr rfl rfl rfl (fun _ => rfl) fun _ => rfl

theorem collectBatches_accounted :
    Run.Preserves (Accounted prog.tasks sim) (collectBatches sim settings) := by
  intro before after accounted res
  unfold collectBatches at res
  split at res
  · obtain ⟨newBatch, _, rest⟩ := bind_ok res
    obtain ⟨lastBatch, _, final⟩ := bind_ok rest
    cases final
    exact accounted.congr rfl rfl rfl (fun _ => rfl) fun _ => rfl
  · cases res
    exact accounted

theorem remapBarriers_frame (limit : Nat) (slots : Slots) :
    (remapBarriers limit slots).length = slots.barriers.length ∧
      ∀ v, ((remapBarriers limit slots).getD v default).consumerCount =
          (slots.barriers.getD v default).consumerCount ∧
        ((remapBarriers limit slots).getD v default).producerCount =
          (slots.barriers.getD v default).producerCount := by
  refine foldlRecOn (motive := fun (loop : List BarrierConfig × Nat) => loop.1.length =
    slots.barriers.length ∧
    ∀ v, (loop.1.getD v default).consumerCount = (slots.barriers.getD v default).consumerCount ∧
      (loop.1.getD v default).producerCount = (slots.barriers.getD v default).producerCount)
    _ _ ⟨rfl, fun _ => ⟨rfl, rfl⟩⟩ fun loop kept p _ => ?_
  split
  · refine ⟨(length_modify ..).trans kept.1, fun v => ⟨?_, ?_⟩⟩
    · refine Eq.trans ?_ (kept.2 v).1
      exact config_modify_field BarrierConfig.consumerCount slots loop.1 p.1.toNat v
        (fun config => { config with realId := (p.2 : Int) - loop.2 }) fun _ => rfl
    · refine Eq.trans ?_ (kept.2 v).2
      exact config_modify_field BarrierConfig.producerCount slots loop.1 p.1.toNat v
        (fun config => { config with realId := (p.2 : Int) - loop.2 }) fun _ => rfl
  · split
    · exact kept
    · exact kept

theorem resizeSlots_accounted :
    Run.Preserves (Accounted prog.tasks sim) (resizeSlots sim settings) := by
  intro before after accounted res
  unfold resizeSlots at res
  split at res
  · simp only at res
    split at res
    · split at res
      · cases res
      · cases res
        exact accounted.congr rfl rfl rfl (fun _ => rfl) fun _ => rfl
    · split at res
      · obtain ⟨prevVidOfPhysBar, _, final⟩ := bind_ok res
        cases final
        obtain ⟨length, counts⟩ := remapBarriers_frame settings.activeBarrierLimit before.slots
        exact accounted.congr length rfl rfl (fun v => (counts v).1) fun v => (counts v).2
      · cases res
        exact accounted
  · cases res
    exact accounted

theorem initialState_accounted (parsed : ParsedTasks prog prog.tasks sim) (limit : Nat) :
    Accounted prog.tasks sim (initialState sim limit) := by
  have nothing : Done sim (initialState sim limit) = fun _ => False := by
    funext task
    refine propext ⟨fun done => ?_, False.elim⟩
    obtain ⟨index, position, _, behind, _⟩ := done
    unfold State.head initialState at behind
    rw [getD_eq_getElem?_getD, getElem?_replicate] at behind
    split at behind
    · exact Nat.not_lt_zero _ behind
    · exact Nat.not_lt_zero _ behind
  refine ⟨rfl, length_replicate, rfl, fun v inside => ?_, fun v inside => ?_,
    fun index position user item found uses held => ?_⟩
  · rw [nothing, outstanding_none]
    exact (parsed.consumers v inside).trans (sum_map_eq_sum_range _ _)
  · rw [nothing, outstanding_none]
    exact (parsed.producers v inside).trans (sum_map_eq_sum_range _ _)
  · rw [nothing]
    refine ⟨fun processed => ?_, False.elim⟩
    simp only [isProcessed, getD_eq_getElem?_getD] at processed
    cases entry : (initialState sim limit).multiQueueDmaTaskStatus[item]? with
    | none =>
      rw [entry] at processed
      cases processed
    | some found =>
      rw [entry] at processed
      have unmarked := parsed.unmarked found (mem_of_getElem? entry)
      rw [Option.getD_some, unmarked] at processed
      cases processed

/-! ### Whole runs -/

/-- The states that the turns of `simulateBarriers` lead to, in whatever order they are taken. -/
inductive Visited (sim : Simulator) (settings : Settings) : State → Prop
  | start : Visited sim settings (initialState sim settings.activeBarrierLimit)
  | reset {state : State} : Visited sim settings state →
      Visited sim settings { state with progressed := false }
  | map {state after : State} : Visited sim settings state →
      (mapBarrier sim state).LeadsTo after → Visited sim settings after
  | collect {state after : State} : Visited sim settings state →
      collectBatches sim settings state = .ok after → Visited sim settings after
  | advance {state after : State} (index : Nat) : Visited sim settings state →
      (advanceQueue sim index state).LeadsTo after → Visited sim settings after
  | resize {state after : State} : Visited sim settings state →
      resizeSlots sim settings state = .ok after → Visited sim settings after

theorem Visited.accounted (agree : sim.ItemsAgree)
    (parsed : ParsedTasks prog prog.tasks sim) {settings : Settings}
    (visited : Visited sim settings state) : Accounted prog.tasks sim state := by
  induction visited with
  | start => exact initialState_accounted parsed _
  | reset _ kept => exact kept.congr rfl rfl rfl (fun _ => rfl) fun _ => rfl
  | map _ turn kept => exact mapBarrier_accounted kept turn
  | collect _ res kept => exact collectBatches_accounted settings _ _ kept res
  | advance index _ turn kept => exact advanceQueue_accounted agree parsed kept turn
  | resize _ res kept => exact resizeSlots_accounted settings _ _ kept res

theorem mapBarriers_visited : Run.Preserves (Visited sim settings) (mapBarriers sim) :=
  fun state _ => Turn.loop_preserves _ (fun _ _ visited turn => .map visited turn) _ state _

theorem processQueue_visited (index : Nat) :
    Run.Preserves (Visited sim settings) fun state => processQueue sim state index :=
  fun state _ => Turn.loop_preserves _
    (fun _ _ visited turn => .advance index visited turn) _ state _

theorem processQueues_visited : Run.Preserves (Visited sim settings) (processQueues sim) :=
  Run.Preserves.foldlM _ fun index _ => processQueue_visited settings index

theorem iterate_visited : Run.Preserves (Visited sim settings) (iterate sim settings) := by
  intro before after visited res
  obtain ⟨mapped, mapping, rest⟩ := bind_ok res
  obtain ⟨collected, collecting, rest⟩ := bind_ok rest
  obtain ⟨processed, processing, rest⟩ := bind_ok rest
  obtain ⟨resized, resizing, rest⟩ := bind_ok rest
  split at rest
  · cases rest
    exact .resize (processQueues_visited settings _ _
      (.collect (mapBarriers_visited settings _ _ (.reset visited) mapping) collecting)
      processing) resizing
  · cases rest

variable {exited : Exit}

theorem mapBarriers_error (res : mapBarriers sim state = .error exited) :
    ∃ message, exited = .thrown message := by
  obtain ⟨last, _, turn⟩ := Turn.loop_exit (fun _ => True) (fun _ _ _ _ => trivial) _ state exited
    trivial res
  unfold mapBarrier at turn
  split at turn
  · split at turn
    · cases turn
    · split at turn
      · cases turn
        exact ⟨_, rfl⟩
      · cases turn
  · cases turn

theorem isNewBatchNeededLoop_error {samePidTopoDep : Bool} {lastBatch slots : List Int}
    {mapped : Bool}
    (res : isNewBatchNeededLoop samePidTopoDep lastBatch slots mapped = .error exited) :
    exited ≠ .statusFail := by
  induction slots generalizing mapped with
  | nil => cases res
  | cons activeBar rest ih =>
    unfold isNewBatchNeededLoop at res
    split at res
    · split at res
      · exact ih res
      · cases res
        exact Exit.noConfusion
    · split at res
      · cases res
      · exact ih res

theorem collectBatches_error {settings : Settings}
    (res : collectBatches sim settings state = .error exited) : exited ≠ .statusFail := by
  unfold collectBatches at res
  split at res
  · rcases bind_error res with needed | ⟨newBatch, _, rest⟩
    · unfold isNewBatchNeeded at needed
      split at needed
      · cases needed
      · cases needed
      · exact isNewBatchNeededLoop_error needed
    · rcases bind_error rest with collected | ⟨lastBatch, _, final⟩
      · obtain ⟨activeBar, _, batch, _, failed⟩ := foldlM_error (fun _ => True) _
          (fun _ _ _ _ _ _ => trivial) _ exited trivial collected
        unfold collectBatch at failed
        split at failed
        · split at failed
          · cases failed
          · cases failed
            exact Exit.noConfusion
        · cases failed
      · cases final
  · cases res

theorem resizeSlots_error {settings : Settings}
    (res : resizeSlots sim settings state = .error exited) : exited ≠ .statusFail := by
  unfold resizeSlots at res
  split at res
  · simp only at res
    split at res
    · split at res
      · cases res
        exact Exit.noConfusion
      · cases res
    · split at res
      · rcases bind_error res with erased | ⟨_, _, final⟩
        · obtain ⟨index, _, prevVid, _, failed⟩ := foldlM_error (fun _ => True) _
            (fun _ _ _ _ _ _ => trivial) _ exited trivial erased
          unfold erasePrevVid at failed
          split at failed
          · cases failed
            exact Exit.noConfusion
          · cases failed
        · cases final
      · cases res
  · cases res

section

variable (agree : sim.ItemsAgree) (parsed : ParsedTasks prog prog.tasks sim)
include agree parsed

theorem iterate_ne_fail {settings : Settings} (visited : Visited sim settings state)
    (res : iterate sim settings state = .error exited) : exited ≠ .statusFail := by
  rcases bind_error res with mapping | ⟨mapped, mapping, rest⟩
  · obtain ⟨message, thrown⟩ := mapBarriers_error mapping
    rw [thrown]
    exact Exit.noConfusion
  · rcases bind_error rest with collecting | ⟨collected, collecting, rest⟩
    · exact collectBatches_error collecting
    · rcases bind_error rest with processing | ⟨processed, -, rest⟩
      · have reached : Visited sim settings collected :=
          .collect (mapBarriers_visited settings _ _ (.reset visited) mapping) collecting
        obtain ⟨index, _, before, seen, failed⟩ := foldlM_error (Visited sim settings) _
          (fun index _ => processQueue_visited settings index) _ exited reached processing
        obtain ⟨last, seenLast, turn⟩ := Turn.loop_exit (Visited sim settings)
          (fun _ _ visited turn => .advance index visited (.inl turn)) _ before exited seen failed
        exact absurd turn (advanceQueue_ne_exit agree parsed (seenLast.accounted agree parsed)
          index exited)
      · rcases bind_error rest with resizing | ⟨resized, _, rest⟩
        · exact resizeSlots_error resizing
        · split at rest
          · cases rest
          · cases rest
            exact Exit.noConfusion

theorem simulateBarriers_ne_fail (numBarriers : Option Int) (barrierLegalization : Bool)
    (fuel : Nat) :
    simulateBarriers sim numBarriers barrierLegalization fuel ≠ .error .statusFail := by
  intro res
  unfold simulateBarriers at res
  simp only at res
  split at res
  · cases res
  · split at res
    · cases res
    · rcases bind_error res with run | ⟨final, _, rest⟩
      · obtain ⟨last, seen, turn⟩ := Turn.loop_exit (Visited sim ⟨_, barrierLegalization⟩)
          (fun _ _ visited turn => iterate_visited _ _ _ visited (iteration_next turn).2) fuel _ _
          Visited.start run
        exact iterate_ne_fail agree parsed seen (iteration_exit turn).2 rfl
      · split at rest
        · cases rest
        · split at rest
          · cases rest
          · cases rest

end

end

/-- When the items of the tasks on several queues agree with their places, then in every state
that the turns of the simulation lead to, in any mode, the counts of each barrier are what the
tasks that have not been processed amount to, so that each task takes its share once. They are
never negative, no task fails, and the simulation does not end with a failed task. -/
theorem counts_are_exact (prog : Program) (wlm : Bool) (sim : Simulator)
    (built : prog.simulator wlm = .ok sim) (agree : sim.ItemsAgree) (settings : Settings) :
    (∀ state, Visited sim settings state → (∀ v < prog.barriers.count,
        (state.slots.config v).consumerCount =
            outstanding (consumesAt prog.tasks v) prog.tasks.length (Done sim state) ∧
          (state.slots.config v).producerCount =
            outstanding (producesAt prog.tasks v) prog.tasks.length (Done sim state) ∧
          0 ≤ (state.slots.config v).consumerCount ∧ 0 ≤ (state.slots.config v).producerCount) ∧
      ∀ index, advanceQueue sim index state ≠ .exit .statusFail) ∧
    ∀ numBarriers barrierLegalization fuel,
      simulateBarriers sim numBarriers barrierLegalization fuel ≠ .error .statusFail := by
  have parsed := simulator_parsed built
  refine ⟨fun state visited => ?_, simulateBarriers_ne_fail agree parsed⟩
  have accounted := visited.accounted agree parsed
  refine ⟨fun v inside => ?_, fun index =>
    advanceQueue_ne_exit agree parsed accounted index .statusFail⟩
  rw [← parsed.length] at inside
  rw [accounted.consumers v inside, accounted.producers v inside]
  exact ⟨rfl, rfl, outstanding_nonneg (consumesAt_nonneg prog.tasks v),
    outstanding_nonneg (producesAt_nonneg prog.tasks v)⟩

/-- A DMA task on both ports, whose queues were met in the order of the ports. -/
def twoPortProgram : Program where
  dmaPortCount := 2
  independentDmaQueues := 2
  availableBarriers := 1
  barriers := .declared 1
  tasks := [⟨.DMA_NN 0 (some 2) none, [], [0]⟩, ⟨.SHAVE_ACT, [0], []⟩]
  declared := by decide

theorem counts_are_exact_two_ports :
    ∃ sim, twoPortProgram.simulator false = .ok sim ∧ sim.ItemsAgree ∧
      ∀ numBarriers barrierLegalization fuel,
        simulateBarriers sim numBarriers barrierLegalization fuel ≠ .error .statusFail := by
  obtain ⟨sim, built, agree⟩ := exists_ok (twoPortProgram.simulator false)
    (fun sim => decide sim.ItemsAgree) (by decide)
  have agree := of_decide_eq_true agree
  exact ⟨sim, built, agree, (counts_are_exact twoPortProgram false sim built agree ⟨1, false⟩).2⟩

/-- The same task after another DMA task has made port 1 the first queue. -/
def mixedPortProgram : Program where
  dmaPortCount := 2
  independentDmaQueues := 2
  availableBarriers := 1
  barriers := .declared 1
  tasks := [⟨.DMA_NN 1 none none, [], []⟩, ⟨.DMA_NN 0 (some 2) none, [], [0]⟩,
    ⟨.SHAVE_ACT, [0], []⟩]
  declared := by decide

/-- The task is processed on both of its queues, and the second time the count is too small. -/
theorem mixedPortProgram_fails :
    ∃ sim, mixedPortProgram.simulator false = .ok sim ∧
      simulateBarriers sim none false 10 = .error .statusFail := by
  obtain ⟨sim, built, failed⟩ := exists_ok (mixedPortProgram.simulator false)
    (fun sim => match simulateBarriers sim none false 10 with
      | .error exited => decide (exited = .statusFail)
      | .ok _ => false) (by decide)
  refine ⟨sim, built, ?_⟩
  cases res : simulateBarriers sim none false 10 with
  | error exited =>
    rw [res] at failed
    rw [of_decide_eq_true failed]
  | ok final =>
    rw [res] at failed
    cases failed

end NpuPlugin.BarrierSimulator
