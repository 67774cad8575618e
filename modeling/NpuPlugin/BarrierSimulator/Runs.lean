/-
This file proves what `parseTasks` leaves in a simulator, and lifts what the turns of the barrier
simulation keep to whole runs without legalization.
-/

import Mathlib.Algebra.BigOperators.Intervals
import NpuPlugin.BarrierSimulator.Mapping

namespace NpuPlugin.BarrierSimulator

open Finset List Option

/-! ### Virtual dependencies -/

/-- The ranges of the table lie inside of it, and dependency 0 is the empty one. -/
structure VirtualDependencyTracker.Valid (vdt : VirtualDependencyTracker) : Prop where
  empty : vdt.deps[0]? = some default
  consumer_le : ∀ dep ∈ vdt.deps, dep.consumer.1 + dep.consumer.2 ≤ vdt.ids.length
  producer_le : ∀ dep ∈ vdt.deps, dep.producer.1 + dep.producer.2 ≤ vdt.ids.length

namespace VirtualDependencyTracker

theorem valid_init : Valid init :=
  ⟨rfl, fun dep mem => by rw [List.mem_singleton.mp mem]; exact le_refl _,
    fun dep mem => by rw [List.mem_singleton.mp mem]; exact le_refl _⟩

theorem idsOf_append (ids more : List Nat) (deps other : List Dependency) (range : Range)
    (bound : range.1 + range.2 ≤ ids.length) :
    idsOf ⟨ids ++ more, deps⟩ range = idsOf ⟨ids, other⟩ range := by
  refine map_congr_left fun index mem => ?_
  have small := List.mem_range.mp mem
  rw [getD_eq_getElem?_getD, getD_eq_getElem?_getD, getElem?_append_left (by omega)]

theorem idsOf_middle (before middle after : List Nat) (deps : List Dependency) :
    idsOf ⟨before ++ middle ++ after, deps⟩ (before.length, middle.length) = middle := by
  unfold idsOf
  refine ext_getElem (by simp) fun index first second => ?_
  rw [getElem_map, getElem_range, getD_eq_getElem?_getD,
    getElem?_append_left (by simp only [length_append]; omega),
    getElem?_append_right (by omega), Nat.add_sub_cancel_left,
    getElem?_eq_getElem second, getD_some]

section

variable {vdt : VirtualDependencyTracker} (taskOp : TaskOp)

theorem add_ids : (vdt.add taskOp).2.ids = vdt.ids ++ taskOp.waitBarriers ++
    taskOp.updateBarriers := by
  unfold add
  simp only
  split <;> rfl

/-- The dependency `add` appends. -/
def added (vdt : VirtualDependencyTracker) (taskOp : TaskOp) : Dependency :=
  ⟨(vdt.ids.length, taskOp.waitBarriers.length),
    ((vdt.ids ++ taskOp.waitBarriers).length, taskOp.updateBarriers.length)⟩

theorem add_cases :
    (vdt.add taskOp = (vdt.deps.length, ⟨vdt.ids ++ taskOp.waitBarriers ++ taskOp.updateBarriers,
          vdt.deps ++ [vdt.added taskOp]⟩)) ∨
      (taskOp.waitBarriers = [] ∧ taskOp.updateBarriers = [] ∧
        vdt.add taskOp = (0, ⟨vdt.ids ++ taskOp.waitBarriers ++ taskOp.updateBarriers,
          vdt.deps⟩)) := by
  unfold add
  simp only
  split
  · exact .inl rfl
  · next none =>
    rw [not_or, not_not, not_not] at none
    exact .inr ⟨length_eq_zero_iff.mp none.1, length_eq_zero_iff.mp none.2, rfl⟩

theorem Valid.add (valid : Valid vdt) : Valid (vdt.add taskOp).2 := by
  have longer : vdt.ids.length ≤
      (vdt.ids ++ taskOp.waitBarriers ++ taskOp.updateBarriers).length := by
    simp only [length_append]
    omega
  rcases vdt.add_cases taskOp with equal | ⟨_, _, equal⟩
  · rw [equal]
    refine ⟨?_, fun dep mem => ?_, fun dep mem => ?_⟩
    · have pos : 0 < vdt.deps.length := (List.getElem?_eq_some_iff.mp valid.empty).1
      rw [getElem?_append_left pos]
      exact valid.empty
    · rcases mem_append.mp mem with old | new
      · exact (valid.consumer_le dep old).trans longer
      · rw [List.mem_singleton.mp new]
        simp [added]
    · rcases mem_append.mp mem with old | new
      · exact (valid.producer_le dep old).trans longer
      · rw [List.mem_singleton.mp new]
        simp [added, Nat.add_assoc]
  · rw [equal]
    exact ⟨valid.empty, fun dep mem => (valid.consumer_le dep mem).trans longer,
      fun dep mem => (valid.producer_le dep mem).trans longer⟩

theorem Valid.dep_add (valid : Valid vdt) {index : Nat} (old : index < vdt.deps.length) :
    (vdt.add taskOp).2.waits index = vdt.waits index ∧
      (vdt.add taskOp).2.posts index = vdt.posts index := by
  have same : (vdt.add taskOp).2.dep index = vdt.dep index := by
    rcases vdt.add_cases taskOp with equal | ⟨_, _, equal⟩
    · rw [equal]
      unfold dep
      rw [getD_eq_getElem?_getD, getElem?_append_left old, getD_eq_getElem?_getD]
    · rw [equal]
      rfl
  have mem : vdt.dep index ∈ vdt.deps := by
    unfold dep
    rw [getD_eq_getElem?_getD, getElem?_eq_getElem old, getD_some]
    exact getElem_mem old
  have ids : (vdt.add taskOp).2.ids = _ := add_ids taskOp
  rw [append_assoc] at ids
  unfold waits posts
  rw [same]
  constructor
  · show idsOf ⟨(vdt.add taskOp).2.ids, _⟩ _ = _
    rw [ids]
    exact idsOf_append _ _ _ _ _ (valid.consumer_le _ mem)
  · show idsOf ⟨(vdt.add taskOp).2.ids, _⟩ _ = _
    rw [ids]
    exact idsOf_append _ _ _ _ _ (valid.producer_le _ mem)

/-- The dependency `add` returns names the barriers of the task. -/
theorem Valid.dep_added (valid : Valid vdt) :
    (vdt.add taskOp).1 < (vdt.add taskOp).2.deps.length ∧
      (vdt.add taskOp).2.waits (vdt.add taskOp).1 = taskOp.waitBarriers ∧
      (vdt.add taskOp).2.posts (vdt.add taskOp).1 = taskOp.updateBarriers := by
  rcases vdt.add_cases taskOp with equal | ⟨waits, posts, equal⟩
  · rw [equal]
    have last : dep ⟨vdt.ids ++ taskOp.waitBarriers ++ taskOp.updateBarriers,
        vdt.deps ++ [vdt.added taskOp]⟩ vdt.deps.length = vdt.added taskOp := by
      unfold dep
      rw [getD_eq_getElem?_getD, getElem?_concat_length, getD_some]
    refine ⟨by simp, ?_, ?_⟩
    · unfold VirtualDependencyTracker.waits
      rw [last]
      exact idsOf_middle _ _ _ _
    · unfold VirtualDependencyTracker.posts
      rw [last, ← append_nil (vdt.ids ++ taskOp.waitBarriers ++ taskOp.updateBarriers)]
      exact idsOf_middle _ _ _ _
  · rw [equal]
    have pos : 0 < vdt.deps.length := (List.getElem?_eq_some_iff.mp valid.empty).1
    have first : dep ⟨vdt.ids ++ taskOp.waitBarriers ++ taskOp.updateBarriers, vdt.deps⟩ 0 =
        default := by
      unfold dep
      rw [getD_eq_getElem?_getD, valid.empty, getD_some]
    refine ⟨pos, ?_, ?_⟩
    · unfold VirtualDependencyTracker.waits
      rw [first, waits]
      rfl
    · unfold VirtualDependencyTracker.posts
      rw [first, posts]
      rfl

theorem length_le_add : vdt.deps.length ≤ (vdt.add taskOp).2.deps.length := by
  rcases vdt.add_cases taskOp with equal | ⟨_, _, equal⟩
  · rw [equal]
    simp
  · rw [equal]

end

end VirtualDependencyTracker

/-! ### The counts of the barriers -/

/-- What a task counts for on each of its barriers. -/
def TaskOp.amount (taskOp : TaskOp) : Int :=
  match taskOp.executor with
  | .DPU numVariants _ => numVariants
  | _ => 1

theorem TaskOp.amount_pos (taskOp : TaskOp) : 0 < taskOp.amount := by
  unfold amount
  split
  · next pos _ => exact Int.natCast_pos.mpr pos
  · exact one_pos

def TaskOp.consumes (taskOp : TaskOp) (v : Nat) : Int := taskOp.amount * taskOp.waitBarriers.count v

def TaskOp.produces (taskOp : TaskOp) (v : Nat) : Int :=
  taskOp.amount * taskOp.updateBarriers.count v

theorem foldl_modify_count (field : BarrierConfig → Int) (change : BarrierConfig → BarrierConfig)
    (amount : Int) (adds : ∀ config, field (change config) = field config + amount)
    (vids : List Nat) (barriers : List BarrierConfig) (v : Nat) (inside : v < barriers.length) :
    field ((vids.foldl (fun barriers vid => barriers.modify vid change) barriers).getD v default) =
      field (barriers.getD v default) + amount * vids.count v := by
  induction vids generalizing barriers with
  | nil => simp
  | cons vid rest ih =>
    rw [foldl_cons, ih _ (by rw [length_modify]; exact inside)]
    by_cases same : vid = v
    · rw [same, count_cons_self]
      have changed : (barriers.modify v change).getD v default =
          change (barriers.getD v default) := by
        simp [getD_eq_getElem?_getD, inside]
      rw [changed, adds]
      push_cast
      ring
    · rw [count_cons_of_ne same]
      have kept : (barriers.modify vid change).getD v default = barriers.getD v default := by
        simp [getD_eq_getElem?_getD, same]
      rw [kept]

theorem foldl_modify_field {Value : Type} (field : BarrierConfig → Value)
    (change : BarrierConfig → BarrierConfig) (kept : ∀ config, field (change config) = field config)
    (vids : List Nat) (barriers : List BarrierConfig) (v : Nat) :
    field ((vids.foldl (fun barriers vid => barriers.modify vid change) barriers).getD v default) =
      field (barriers.getD v default) := by
  induction vids generalizing barriers with
  | nil => rfl
  | cons vid rest ih =>
    rw [foldl_cons, ih]
    exact Slots.config_modify_field field ⟨barriers, [], ⟨[], 0, 0, 0⟩⟩ barriers vid v change kept

theorem length_foldl_modify (change : BarrierConfig → BarrierConfig) (vids : List Nat)
    (barriers : List BarrierConfig) :
    (vids.foldl (fun barriers vid => barriers.modify vid change) barriers).length =
      barriers.length := by
  induction vids generalizing barriers with
  | nil => rfl
  | cons vid rest ih => rw [foldl_cons, ih, length_modify]

section

variable (barriers : List BarrierConfig) (taskOp : TaskOp) (count : Int)

theorem length_updateBarrierConfigs :
    (updateBarrierConfigs barriers taskOp count).length = barriers.length := by
  rw [updateBarrierConfigs, length_foldl_modify, length_foldl_modify]

theorem realId_updateBarrierConfigs (v : Nat) :
    ((updateBarrierConfigs barriers taskOp count).getD v default).realId =
      (barriers.getD v default).realId := by
  unfold updateBarrierConfigs
  rw [foldl_modify_field BarrierConfig.realId (.addProducers count) fun _ => rfl,
    foldl_modify_field BarrierConfig.realId (.addConsumers count) fun _ => rfl]

theorem consumerCount_updateBarrierConfigs (v : Nat) (inside : v < barriers.length) :
    ((updateBarrierConfigs barriers taskOp count).getD v default).consumerCount =
      (barriers.getD v default).consumerCount + count * taskOp.waitBarriers.count v := by
  unfold updateBarrierConfigs
  rw [foldl_modify_field BarrierConfig.consumerCount (.addProducers count) fun _ => rfl,
    foldl_modify_count BarrierConfig.consumerCount (.addConsumers count) count (fun _ => rfl) _ _ v
      inside]

theorem producerCount_updateBarrierConfigs (v : Nat) (inside : v < barriers.length) :
    ((updateBarrierConfigs barriers taskOp count).getD v default).producerCount =
      (barriers.getD v default).producerCount + count * taskOp.updateBarriers.count v := by
  unfold updateBarrierConfigs
  rw [foldl_modify_count BarrierConfig.producerCount (.addProducers count) count (fun _ => rfl) _ _
      v (by rw [length_foldl_modify]; exact inside),
    foldl_modify_field BarrierConfig.producerCount (.addConsumers count) fun _ => rfl]

end

/-! ### Queues -/

variable {user : BarrierUserConfig} {sim before after : Simulator} {dmaPortCount : Nat}
  {taskOp : TaskOp} {prog : Program}

theorem parsePorts_mem {channel : Option DmaChannelType} (ports : List Int)
    {state after : PortState} (parsed : ports.foldlM (parsePort user channel) state = .ok after) :
    after.dmaTasks.length = state.dmaTasks.length ∧
      ∀ queue ∈ after.dmaTasks, ∀ other ∈ queue,
        other = user ∨ ∃ before ∈ state.dmaTasks, other ∈ before := by
  induction ports generalizing state with
  | nil =>
    cases parsed
    exact ⟨rfl, fun queue mem other inside => .inr ⟨queue, mem, inside⟩⟩
  | cons port rest ih =>
    rw [foldlM_cons] at parsed
    cases step : parsePort user channel state port with
    | error message =>
      rw [step] at parsed
      cases parsed
    | ok middle =>
      rw [step] at parsed
      obtain ⟨length, members⟩ := ih parsed
      unfold parsePort at step
      simp only at step
      split at step
      · cases step
      · next queue found =>
        rw [Except.ok.injEq] at step
        have tasks : middle.dmaTasks = state.dmaTasks.set _ (queue ++ [user]) :=
          (congrArg PortState.dmaTasks step).symm
        rw [tasks] at length members
        rw [length_set] at length
        refine ⟨length, fun last mem other inside => ?_⟩
        rcases members last mem other inside with same | ⟨before, held, other_mem⟩
        · exact .inl same
        · rcases mem_or_eq_of_mem_set held with kept | changed
          · exact .inr ⟨before, kept, other_mem⟩
          · rw [changed, mem_append, List.mem_singleton] at other_mem
            rcases other_mem with old | new
            · exact .inr ⟨queue, mem_of_getElem? found, old⟩
            · exact .inl new

/-- The entry was made for the task op at its position. -/
structure EntryFor (sim : Simulator) (tasks : List TaskOp) (user : BarrierUserConfig) : Prop where
  dep_lt : user.virtualDep < sim.vdt.deps.length
  made : ∃ taskOp, tasks[user.task]? = some taskOp ∧
    sim.vdt.waits user.virtualDep = taskOp.waitBarriers ∧
    sim.vdt.posts user.virtualDep = taskOp.updateBarriers ∧ user.count = taskOp.amount

structure ParsedTasks (prog : Program) (tasks : List TaskOp) (sim : Simulator) : Prop where
  length : sim.barriers.length = prog.barriers.count
  realId : ∀ v, (sim.barriers.getD v default).realId =
    ((parseBarriers prog.barriers).getD v default).realId
  dynamic : sim.isDynamicBarriers = prog.barriers.isDynamic
  available : sim.availableBarriers = prog.availableBarriers
  valid : sim.vdt.Valid
  unmarked : ∀ item ∈ sim.multiQueueDmaTaskStatus, item.2 = false
  entries : ∀ queue ∈ sim.queues, ∀ user ∈ queue, EntryFor sim tasks user
  consumers : ∀ v < sim.barriers.length, (sim.barriers.getD v default).consumerCount =
    (tasks.map fun taskOp => taskOp.consumes v).sum
  producers : ∀ v < sim.barriers.length, (sim.barriers.getD v default).producerCount =
    (tasks.map fun taskOp => taskOp.produces v).sum

/-- What the parser does for a task with a simulator: the barriers and the table change the same
way for every executor, and each entry of a queue is an old one or the one of the task. -/
structure TaskParsed (before after : Simulator) (taskOp : TaskOp) (task : Nat) : Prop where
  barriers : after.barriers = updateBarrierConfigs before.barriers taskOp taskOp.amount
  vdt : after.vdt = (before.vdt.add taskOp).2
  dynamic : after.isDynamicBarriers = before.isDynamicBarriers
  available : after.availableBarriers = before.availableBarriers
  unmarked : ∀ item ∈ after.multiQueueDmaTaskStatus,
    item ∈ before.multiQueueDmaTaskStatus ∨ item.2 = false
  entries : ∀ queue ∈ after.queues, ∀ user ∈ queue,
    user = ⟨(before.vdt.add taskOp).1, taskOp.amount, task⟩ ∨ ∃ old ∈ before.queues, user ∈ old

theorem mem_queues {queue : List BarrierUserConfig} :
    queue ∈ sim.queues ↔ queue ∈ sim.dmaTasks ∨ queue = sim.nceTasks ∨ queue = sim.actTasks ∨
      queue = sim.upaTasks ∨ queue = sim.m2iTasks := by
  simp [Simulator.queues]

theorem entries_of_queues (queues : ∀ queue ∈ after.queues,
      queue ∈ before.queues ∨ ∃ old ∈ before.queues, queue = old ++ [user]) :
    ∀ queue ∈ after.queues, ∀ other ∈ queue,
      other = user ∨ ∃ old ∈ before.queues, other ∈ old := by
  intro queue mem other inside
  rcases queues queue mem with kept | ⟨old, held, longer⟩
  · exact .inr ⟨queue, kept, inside⟩
  · rw [longer, mem_append, List.mem_singleton] at inside
    rcases inside with first | last
    · exact .inr ⟨old, held, first⟩
    · exact .inl last

theorem insertStatus_mem {items : List (List DmaTaskIdx × Bool)} {key : List DmaTaskIdx}
    {item : List DmaTaskIdx × Bool} (mem : item ∈ insertStatus items key) :
    item ∈ items ∨ item.2 = false := by
  unfold insertStatus at mem
  split at mem
  · exact .inl mem
  · rcases mem_append.mp mem with old | new
    · exact .inl old
    · rw [List.mem_singleton.mp new]
      exact .inr rfl

theorem parseTask_parsed {state after : ParseState} {task : Nat}
    (parsed : parseTask dmaPortCount state (taskOp, task) = .ok after) :
    TaskParsed state.sim after.sim taskOp task := by
  unfold parseTask at parsed
  simp only at parsed
  split at parsed
  · -- A DMA task is put on the queue of each of its ports.
    next port numClusters channel executor =>
    have one : taskOp.amount = 1 := by rw [TaskOp.amount, executor]
    cases ports : (getDMATaskPorts dmaPortCount port numClusters).foldlM
        (parsePort ⟨(state.sim.vdt.add taskOp).1, 1, task⟩ channel)
        ⟨state.indices, state.sim.dmaTasks, []⟩ with
    | error message =>
      rw [ports] at parsed
      cases parsed
    | ok final =>
      rw [ports] at parsed
      cases parsed
      obtain ⟨length, members⟩ := parsePorts_mem _ ports
      refine ⟨by rw [one], rfl, rfl, rfl, fun item mem => ?_, fun queue mem user inside => ?_⟩
      · simp only at mem
        split at mem
        · exact insertStatus_mem mem
        · exact .inl mem
      rw [one]
      rcases mem_queues.mp mem with dma | others
      · rcases members queue dma user inside with same | ⟨old, held, kept⟩
        · exact .inl same
        · exact .inr ⟨old, mem_queues.mpr (.inl held), kept⟩
      · exact .inr ⟨queue, mem_queues.mpr (.inr others), inside⟩
  · next numVariants pos executor =>
    have count : taskOp.amount = numVariants := by rw [TaskOp.amount, executor]
    cases parsed
    rw [← count]
    refine ⟨rfl, rfl, rfl, rfl, fun _ => .inl, entries_of_queues fun queue mem => ?_⟩
    simp only [mem_queues] at mem ⊢
    grind
  iterate 3
    next executor =>
    have one : taskOp.amount = 1 := by rw [TaskOp.amount, executor]
    cases parsed
    rw [← one]
    refine ⟨rfl, rfl, rfl, rfl, fun _ => .inl, entries_of_queues fun queue mem => ?_⟩
    simp only [mem_queues] at mem ⊢
    grind
  · -- An op of no known executor is put on the first DMA queue.
    next executor =>
    have one : taskOp.amount = 1 := by rw [TaskOp.amount, executor]
    cases parsed
    rw [← one]
    refine ⟨rfl, rfl, rfl, rfl, fun _ => .inl, entries_of_queues fun queue mem => ?_⟩
    rcases mem_queues.mp mem with dma | others
    · obtain ⟨index, found⟩ := mem_iff_getElem?.mp dma
      simp only [getElem?_modify] at found
      obtain ⟨before, held, changed⟩ := map_eq_some_iff.mp found
      have old : before ∈ state.sim.queues := mem_queues.mpr (.inl (mem_of_getElem? held))
      split at changed
      · exact .inr ⟨before, old, changed.symm⟩
      · exact .inl (changed ▸ old)
    · exact .inl (mem_queues.mpr (.inr others))

theorem ParsedTasks.parseTask {tasks : List TaskOp} (parsed : ParsedTasks prog tasks before)
    (step : TaskParsed before after taskOp tasks.length) :
    ParsedTasks prog (tasks ++ [taskOp]) after := by
  have length : after.barriers.length = before.barriers.length := by
    rw [step.barriers, length_updateBarrierConfigs]
  refine ⟨length.trans parsed.length, fun v => ?_, step.dynamic.trans parsed.dynamic,
    step.available.trans parsed.available, ?_, fun item mem => ?_,
    fun queue mem user inside => ?_, fun v bound => ?_, fun v bound => ?_⟩
  · rw [step.barriers, realId_updateBarrierConfigs]
    exact parsed.realId v
  · rw [step.vdt]
    exact parsed.valid.add taskOp
  · rcases step.unmarked item mem with old | new
    · exact parsed.unmarked item old
    · exact new
  · rcases step.entries queue mem user inside with new | ⟨old, held, kept⟩
    · obtain ⟨bound, waits, posts⟩ := parsed.valid.dep_added taskOp
      rw [new]
      refine ⟨by rw [step.vdt]; exact bound, taskOp, ?_, ?_, ?_, rfl⟩
      · rw [getElem?_concat_length]
      · rw [step.vdt]
        exact waits
      · rw [step.vdt]
        exact posts
    · obtain ⟨bound, made, found, waits, posts, count⟩ := parsed.entries old held user kept
      obtain ⟨sameWaits, samePosts⟩ := parsed.valid.dep_add taskOp bound
      refine ⟨?_, made, ?_, ?_, ?_, count⟩
      · rw [step.vdt]
        exact bound.trans_le (VirtualDependencyTracker.length_le_add taskOp)
      · rw [getElem?_append_left (List.getElem?_eq_some_iff.mp found).1]
        exact found
      · rw [step.vdt, sameWaits, waits]
      · rw [step.vdt, samePosts, posts]
  · rw [length] at bound
    rw [step.barriers, consumerCount_updateBarrierConfigs _ _ _ v bound, parsed.consumers v bound,
      map_append, sum_append, List.map_singleton, List.sum_singleton]
    rfl
  · rw [length] at bound
    rw [step.barriers, producerCount_updateBarrierConfigs _ _ _ v bound, parsed.producers v bound,
      map_append, sum_append, List.map_singleton, List.sum_singleton]
    rfl

theorem parsedTasks_empty (prog : Program) : ParsedTasks prog [] (emptySimulator prog) := by
  have zero : ∀ v, (((parseBarriers prog.barriers).getD v default).consumerCount = 0) ∧
      ((parseBarriers prog.barriers).getD v default).producerCount = 0 := by
    intro v
    cases prog.barriers with
    | declared count =>
      by_cases inside : v < count
      · simp [parseBarriers, inside]
      · simp [parseBarriers, inside, default, instInhabitedBarrierConfig.default]
    | configured ids =>
      by_cases inside : v < ids.length
      · simp [parseBarriers, inside]
      · simp [parseBarriers, inside, default, instInhabitedBarrierConfig.default]
  refine ⟨?_, fun _ => rfl, rfl, rfl, VirtualDependencyTracker.valid_init,
    forall_mem_nil _, fun queue mem user inside => ?_, fun v
      _ => (zero v).1, fun v _ => (zero v).2⟩
  · show (parseBarriers prog.barriers).length = prog.barriers.count
    cases prog.barriers with
    | declared count => exact length_replicate
    | configured ids => exact length_map _
  · rcases mem_queues.mp mem with dma | rest
    · rw [(mem_replicate.mp dma).2] at inside
      cases inside
    · rcases rest with same | same | same | same <;>
        · rw [same] at inside
          cases inside

theorem parseTasks_parsed (done rest : List TaskOp) {state after : ParseState}
    (parsed : ParsedTasks prog done state.sim)
    (res : (rest.zipIdx done.length).foldlM (parseTask dmaPortCount) state = .ok after) :
    ParsedTasks prog (done ++ rest) after.sim := by
  induction rest generalizing done state with
  | nil =>
    cases res
    rw [append_nil]
    exact parsed
  | cons taskOp rest ih =>
    rw [zipIdx_cons, foldlM_cons] at res
    cases step : parseTask dmaPortCount state (taskOp, done.length) with
    | error message =>
      rw [step] at res
      cases res
    | ok middle =>
      rw [step] at res
      have next := parsed.parseTask (parseTask_parsed step)
      rw [append_cons]
      refine ih (done ++ [taskOp]) next ?_
      rw [length_append, length_singleton]
      exact res

theorem simulator_parsed {wlm : Bool} (built : prog.simulator wlm = .ok sim) :
    ParsedTasks prog prog.tasks sim := by
  unfold Program.simulator at built
  cases parse : parseTasks prog.dmaPortCount (emptySimulator prog) prog.tasks with
  | error message =>
    rw [parse] at built
    cases built
  | ok parsed =>
    rw [parse] at built
    have described : ParsedTasks prog prog.tasks parsed.sim :=
      parseTasks_parsed [] prog.tasks (parsedTasks_empty prog) parse
    cases wlm with
    | true =>
      cases built
      exact ⟨described.length, described.realId, described.dynamic, described.available,
        described.valid, described.unmarked,
        fun queue mem user inside =>
          ⟨(described.entries queue mem user inside).dep_lt,
            (described.entries queue mem user inside).made⟩,
        described.consumers, described.producers⟩
    | false =>
      cases built
      exact described

/-- The queues of a simulator built from a program use declared barriers. -/
theorem ParsedTasks.wellFormed (parsed : ParsedTasks prog prog.tasks sim) : sim.WellFormed := by
  have entry : ∀ index, ∀ user ∈ sim.queue index, EntryFor sim prog.tasks user := by
    intro index user mem
    unfold Simulator.queue at mem
    rw [getD_eq_getElem?_getD] at mem
    cases found : sim.queues[index]? with
    | none =>
      rw [found] at mem
      cases mem
    | some queue =>
      rw [found] at mem
      exact parsed.entries queue (mem_of_getElem? found) user mem
  refine ⟨fun index user mem => ?_, fun index user mem v inside => ?_⟩
  · obtain ⟨_, taskOp, _, _, _, count⟩ := entry index user mem
    rw [count]
    exact taskOp.amount_pos
  · obtain ⟨_, taskOp, found, waits, posts, _⟩ := entry index user mem
    rw [waits, posts] at inside
    rw [parsed.length]
    exact prog.declared taskOp (mem_of_getElem? found) v inside

/-! ### The first state -/

variable {prog : Program} {tasks : List TaskOp} {sim : Simulator} (limit : Nat)
  (barriers : List BarrierConfig)

theorem pushAll_contents (count : Nat) (bound : count ≤ limit) :
    let ring := (List.range count).foldl
      (fun (nextReal : RingBuffer Int) (index : Nat) => nextReal.push index)
      (RingBuffer.reset limit)
    ring.Coherent ∧ ring.storage.length = limit ∧
      ring.contents = (List.range count).map fun index : Nat => (index : Int) := by
  induction count with
  | zero => exact ⟨RingBuffer.coherent_reset limit, RingBuffer.storage_length_reset limit, rfl⟩
  | succ count ih =>
    obtain ⟨coherent, capacity, contents⟩ := ih (by omega)
    have size := congrArg List.length contents
    rw [RingBuffer.contents_length, length_map, length_range] at size
    simp only [range_succ, foldl_append, foldl_cons, foldl_nil]
    refine ⟨coherent.push _ (by rw [size, capacity]; exact bound), ?_, ?_⟩
    · rw [RingBuffer.storage_length_push, capacity]
    · rw [coherent.contents_push _ (by rw [size, capacity]; exact bound), contents,
        map_append, List.map_singleton]

theorem owner_replicate (nextReal : RingBuffer Int) (real : Int) :
    Slots.owner ⟨barriers, List.replicate limit (-1), nextReal⟩ real =
      if 0 ≤ real ∧ real.toNat < limit then some (-1) else none := by
  unfold Slots.owner
  simp only [getElem?_replicate]
  split
  · next negative => rw [if_neg (by omega)]
  · next sign =>
    have nonneg : 0 ≤ real := not_lt.mp sign
    simp only [nonneg, true_and]

theorem freeRing_initial (limit : Nat) :
    FreeRing ⟨barriers, List.replicate limit (-1), allReal limit⟩ := by
  obtain ⟨coherent, capacity, contents⟩ := pushAll_contents limit limit le_rfl
  refine ⟨coherent, ?_, ?_, fun real => ?_⟩
  · rw [length_replicate]
    exact capacity
  · show (allReal limit).contents.Nodup
    rw [allReal, contents]
    exact (nodup_range).map fun first second equal => Int.ofNat.inj equal
  · show real ∈ (allReal limit).contents ↔ _
    rw [allReal, contents, owner_replicate, List.mem_map]
    constructor
    · rintro ⟨index, mem, equal⟩
      have small := List.mem_range.mp mem
      rw [if_pos (by omega)]
    · intro owner
      split at owner
      · next inside => exact ⟨real.toNat, List.mem_range.mpr inside.2, Int.toNat_of_nonneg inside.1⟩
      · cases owner

theorem ParsedTasks.realId_dynamic (parsed : ParsedTasks prog tasks sim)
    (dynamic : sim.isDynamicBarriers = true) {v : Nat} (inside : v < sim.barriers.length) :
    (sim.barriers.getD v default).realId = -1 := by
  rw [parsed.realId v]
  rw [parsed.length] at inside
  rw [parsed.dynamic] at dynamic
  cases kind : prog.barriers with
  | declared count =>
    rw [kind] at inside
    have small : v < count := inside
    simp [parseBarriers, getD_eq_getElem?_getD, small]
  | configured ids =>
    rw [kind] at dynamic
    cases dynamic

theorem initialState_sound (parsed : ParsedTasks prog tasks sim) (limit : Nat) :
    (initialState sim limit).Sound sim limit := by
  have released : ∀ v, ¬ Released sim.HasConsumers (initialState sim limit).slots v :=
    fun v gone => gone.1 gone.2
  refine ⟨rfl, length_replicate, ?_, ?_, ?_, ?_, ?_, fun v _ => released v, fun v gone =>
    absurd gone (released v),
    fun v none => ?_, fun dynamic => ?_⟩
  · exact Nat.zero_le _
  · intro v before
    exact absurd before (Nat.not_lt_zero v)
  · intro real value owner taken
    rw [initialState, owner_replicate] at owner
    split at owner
    · exact absurd (Option.some.inj owner).symm taken
    · cases owner
  · intro v before
    exact absurd before (Nat.not_lt_zero v)
  · intro dynamic v _ inside
    exact parsed.realId_dynamic dynamic inside
  · exact not_not.mp none
  · unfold initialState
    rw [if_pos dynamic]
    exact freeRing_initial sim.barriers limit

/-! ### One iteration -/

section

variable {sim : Simulator} {limit : Nat}

theorem mapBarriers_sound : Run.Preserves (State.Sound sim limit) (mapBarriers sim) :=
  fun state _ => Turn.loop_preserves (State.Sound sim limit)
    (fun _ _ sound turn => mapBarrier_sound sound turn) _ state _

theorem processQueues_sound (wellFormed : sim.WellFormed) :
    Run.Preserves (State.Sound sim limit) (processQueues sim) :=
  Run.Preserves.foldlM _ fun _ _ state _ => Turn.loop_preserves (State.Sound sim limit)
    (fun _ _ sound turn => advanceQueue_sound wellFormed sound turn) _ state _

theorem iterate_eq (state : State) :
    iterate sim ⟨limit, false⟩ state =
      (mapBarriers sim { state with progressed := false } >>= processQueues sim) >>=
        fun processed => if processed.progressed then .ok processed else .error .blocked := by
  unfold iterate
  cases mapBarriers sim { state with progressed := false } with
  | error exited => rfl
  | ok mapped =>
    show (do
      let processed ← processQueues sim mapped
      if processed.progressed then pure processed else Except.error Exit.blocked) = _
    rfl

variable {state after : State} {settings : Settings}

theorem iterate_ok (res : iterate sim ⟨limit, false⟩ state = .ok after) :
    (mapBarriers sim { state with progressed := false } >>= processQueues sim) = .ok after ∧
      after.progressed = true := by
  rw [iterate_eq] at res
  cases outcome : (mapBarriers sim { state with progressed := false } >>= processQueues sim) with
  | error exited =>
    rw [outcome] at res
    cases res
  | ok processed =>
    rw [outcome] at res
    cases progress : processed.progressed with
    | false =>
      simp only [bind, Except.bind, progress] at res
      cases res
    | true =>
      simp only [bind, Except.bind, progress] at res
      cases res
      exact ⟨rfl, progress⟩

theorem iterate_sound (wellFormed : sim.WellFormed) :
    Run.Preserves (State.Sound sim limit) (iterate sim ⟨limit, false⟩) := by
  intro state after sound res
  have start : State.Sound sim limit { state with progressed := false } :=
    ⟨sound.length, sound.size, sound.owned⟩
  exact (mapBarriers_sound.bind (processQueues_sound wellFormed)) _ after start
    (iterate_ok res).1

theorem iteration_next (turn : iteration sim settings state = .next after) :
    isUnfinished sim state = true ∧ iterate sim settings state = .ok after := by
  unfold iteration at turn
  split at turn
  · next unfinished =>
    cases res : iterate sim settings state with
    | ok reached =>
      rw [res] at turn
      cases turn
      exact ⟨unfinished, rfl⟩
    | error exited =>
      rw [res] at turn
      cases turn
  · cases turn

theorem iteration_leave (turn : iteration sim settings state = .leave after) :
    isUnfinished sim state = false ∧ after = state := by
  unfold iteration at turn
  split at turn
  · cases res : iterate sim settings state with
    | ok reached =>
      rw [res] at turn
      cases turn
    | error exited =>
      rw [res] at turn
      cases turn
  · next done => exact ⟨Bool.eq_false_of_not_eq_true done, (Turn.leave.inj turn).symm⟩

theorem iteration_exit {exited : Exit} (turn : iteration sim settings state = .exit exited) :
    isUnfinished sim state = true ∧ iterate sim settings state = .error exited := by
  unfold iteration at turn
  split at turn
  · next unfinished =>
    cases res : iterate sim settings state with
    | ok reached =>
      rw [res] at turn
      cases turn
    | error found =>
      rw [res] at turn
      cases turn
      exact ⟨unfinished, rfl⟩
  · cases turn

theorem iteration_sound (wellFormed : sim.WellFormed) (sound : state.Sound sim limit)
    (turn : (iteration sim ⟨limit, false⟩ state).LeadsTo after) : after.Sound sim limit := by
  rcases turn with next | leave
  · exact iterate_sound wellFormed state after sound (iteration_next next).2
  · rw [(iteration_leave leave).2]
    exact sound

/-! ### simulateBarriers -/

variable {numBarriers : Option Int} {fuel : Nat} {final : State}

theorem simulateBarriers_ok (res : simulateBarriers sim numBarriers false fuel = .ok final) :
    0 ≤ numBarriers.getD sim.availableBarriers ∧
      numBarriers.getD sim.availableBarriers ≤ sim.availableBarriers ∧
      Turn.loop (iteration sim ⟨(numBarriers.getD sim.availableBarriers).toNat, false⟩) fuel
        (initialState sim (numBarriers.getD sim.availableBarriers).toNat) = .ok final ∧
      isUnfinished sim final = false := by
  unfold simulateBarriers at res
  simp only at res
  split at res
  · cases res
  · next within =>
    split at res
    · cases res
    · next sign =>
      cases run : Turn.loop (iteration sim
          ⟨(numBarriers.getD sim.availableBarriers).toNat, false⟩) fuel
          (initialState sim (numBarriers.getD sim.availableBarriers).toNat) with
      | error exited =>
        rw [run] at res
        cases res
      | ok reached =>
        rw [run] at res
        simp only [bind, Except.bind] at res
        cases unfinished : isUnfinished sim reached with
        | true =>
          rw [unfinished] at res
          cases res
        | false =>
          rw [unfinished] at res
          cases res
          exact ⟨not_lt.mp sign, not_lt.mp within, rfl, unfinished⟩

theorem simulateBarriers_of_loop (sign : 0 ≤ numBarriers.getD sim.availableBarriers)
    (within : numBarriers.getD sim.availableBarriers ≤ sim.availableBarriers)
    (run : Turn.loop (iteration sim ⟨(numBarriers.getD sim.availableBarriers).toNat, false⟩) fuel
      (initialState sim (numBarriers.getD sim.availableBarriers).toNat) = .ok final)
    (finished : isUnfinished sim final = false) :
    simulateBarriers sim numBarriers false fuel = .ok final := by
  unfold simulateBarriers
  simp only
  rw [if_neg within.not_gt, if_neg sign.not_gt, run]
  simp only [bind, Except.bind, finished, Bool.false_eq_true, if_false, false_and]
  rfl

theorem isUnfinished_false :
    isUnfinished sim state = false ↔ state.slots.barriers.length ≤ state.bar ∧
      ∀ index < sim.queues.length, (sim.queue index).length ≤ state.head index := by
  unfold isUnfinished
  simp [List.any_eq_false]

end

end NpuPlugin.BarrierSimulator
