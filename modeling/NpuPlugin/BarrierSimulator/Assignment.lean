/-
This file proves that the physical barriers assigned by a simulation of virtual barriers pass the
simulation of the same tasks with these barriers fixed: the two runs go in step.
-/

import NpuPlugin.BarrierSimulator.Runs

namespace NpuPlugin.BarrierSimulator

open List

/-! ### The program with its barriers configured -/

/-- The function after every virtual barrier became a `ConfigureBarrierOp` with its physical
id. -/
def Program.configure (prog : Program) (realId : Nat → Int) : Program where
  dmaPortCount := prog.dmaPortCount
  independentDmaQueues := prog.independentDmaQueues
  availableBarriers := prog.availableBarriers
  barriers := .configured ((List.range prog.barriers.count).map realId)
  tasks := prog.tasks
  declared := fun task mem vid inside => by
    show vid < ((List.range prog.barriers.count).map realId).length
    rw [length_map, length_range]
    exact prog.declared task mem vid inside

def pinBarriers (realId : Nat → Int) (barriers : List BarrierConfig) : List BarrierConfig :=
  barriers.mapIdx fun v config => { config with realId := realId v }

def Simulator.pin (realId : Nat → Int) (sim : Simulator) : Simulator :=
  { sim with barriers := pinBarriers realId sim.barriers, isDynamicBarriers := false }

section

variable (realId : Nat → Int) (barriers : List BarrierConfig) (v : Nat)
  (change : BarrierConfig → BarrierConfig)

@[simp] theorem length_pinBarriers :
    (pinBarriers realId barriers).length = barriers.length := length_mapIdx

theorem getElem?_pinBarriers :
    (pinBarriers realId barriers)[v]? =
      barriers[v]?.map fun config => { config with realId := realId v } :=
  getElem?_mapIdx

theorem getD_pinBarriers {v : Nat} (inside : v < barriers.length) :
    (pinBarriers realId barriers).getD v default =
      { barriers.getD v default with realId := realId v } := by
  rw [getD_eq_getElem?_getD, getElem?_pinBarriers, getElem?_eq_getElem inside,
    getD_eq_getElem?_getD, getElem?_eq_getElem inside]
  rfl

theorem pinBarriers_modify (counts : ∀ config real, change { config with realId := real } =
      { change config with realId := real }) :
    (pinBarriers realId barriers).modify v change =
      pinBarriers realId (barriers.modify v change) := by
  refine ext_getElem? fun w => ?_
  rw [getElem?_modify, getElem?_pinBarriers, getElem?_pinBarriers, getElem?_modify]
  cases barriers[w]? with
  | none => rfl
  | some config =>
    simp only [Option.map_some, Option.map_eq_map, Option.some.injEq]
    split
    · exact counts config _
    · rfl

theorem pinBarriers_modify_realId :
    (pinBarriers realId barriers).modify v (fun config => { config with realId := realId v }) =
      pinBarriers realId (barriers.modify v fun config => { config with realId := realId v }) := by
  refine ext_getElem? fun w => ?_
  rw [getElem?_modify, getElem?_pinBarriers, getElem?_pinBarriers, getElem?_modify]
  cases barriers[w]? with
  | none => rfl
  | some config =>
    by_cases same : v = w
    · rw [same]
      simp
    · simp [same]

theorem foldl_modify_pinBarriers (counts : ∀ config real, change { config with realId := real } =
      { change config with realId := real }) (vids : List Nat) (barriers : List BarrierConfig) :
    vids.foldl (fun barriers vid => barriers.modify vid change) (pinBarriers realId barriers) =
      pinBarriers realId
        (vids.foldl (fun barriers vid => barriers.modify vid change) barriers) := by
  induction vids generalizing barriers with
  | nil => rfl
  | cons vid rest ih =>
    rw [foldl_cons, foldl_cons, pinBarriers_modify realId barriers vid change counts, ih]

theorem updateBarrierConfigs_pinBarriers (taskOp : TaskOp) (count : Int) :
    updateBarrierConfigs (pinBarriers realId barriers) taskOp count =
      pinBarriers realId (updateBarrierConfigs barriers taskOp count) := by
  unfold updateBarrierConfigs
  rw [foldl_modify_pinBarriers realId (.addConsumers count) fun _ _ => rfl,
    foldl_modify_pinBarriers realId (.addProducers count) fun _ _ => rfl]

/-! ### Parsing the configured program -/

def ParseState.pin (state : ParseState) : ParseState := ⟨state.sim.pin realId, state.indices⟩

theorem parseTask_pin (dmaPortCount : Nat) (state : ParseState) (item : TaskOp × Nat) :
    parseTask dmaPortCount (state.pin realId) item =
      (parseTask dmaPortCount state item).map (ParseState.pin realId) := by
  obtain ⟨taskOp, task⟩ := item
  unfold parseTask ParseState.pin Simulator.pin
  simp only [updateBarrierConfigs_pinBarriers]
  cases taskOp.executor with
  | DMA_NN port numClusters channel =>
    simp only
    cases (getDMATaskPorts dmaPortCount port numClusters).foldlM
        (parsePort ⟨(state.sim.vdt.add taskOp).1, 1, task⟩ channel)
        ⟨state.indices, state.sim.dmaTasks, []⟩ with
    | error message => rfl
    | ok parsed => rfl
  | DPU numVariants positive => rfl
  | SHAVE_ACT => rfl
  | SHAVE_UPA => rfl
  | M2I => rfl
  | UNKNOWN => rfl

theorem foldlM_parseTask_pin (dmaPortCount : Nat) (items : List (TaskOp × Nat))
    (state : ParseState) :
    items.foldlM (parseTask dmaPortCount) (state.pin realId) =
      (items.foldlM (parseTask dmaPortCount) state).map (ParseState.pin realId) := by
  induction items generalizing state with
  | nil => rfl
  | cons item rest ih =>
    rw [foldlM_cons, foldlM_cons, parseTask_pin]
    cases parseTask dmaPortCount state item with
    | error message => rfl
    | ok next => exact ih next

theorem parseBarriers_configure (prog : Program) :
    parseBarriers (prog.configure realId).barriers =
      pinBarriers realId (parseBarriers prog.barriers) := by
  refine ext_getElem? fun v => ?_
  rw [getElem?_pinBarriers]
  show ((map realId (range prog.barriers.count)).map _)[v]? = _
  cases prog.barriers with
  | declared count =>
    by_cases inside : v < count
    · simp [parseBarriers, Barriers.count, inside]
    · simp [parseBarriers, Barriers.count, inside]
  | configured ids =>
    by_cases inside : v < ids.length
    · simp [parseBarriers, Barriers.count, inside]
    · simp [parseBarriers, Barriers.count, inside]

/-- What two simulators share when one has the barriers of the other fixed. -/
structure Pins (sim static : Simulator) : Prop where
  barriers : static.barriers = pinBarriers realId sim.barriers
  fixed : static.isDynamicBarriers = false
  available : static.availableBarriers = sim.availableBarriers
  dmaTasks : static.dmaTasks = sim.dmaTasks
  queues : static.queues = sim.queues
  status : static.multiQueueDmaTaskStatus = sim.multiQueueDmaTaskStatus
  vdt : static.vdt = sim.vdt

theorem simulator_configure {prog : Program} {wlm : Bool} {sim : Simulator}
    (built : prog.simulator wlm = .ok sim) (staticWlm : Bool) :
    ∃ static, (prog.configure realId).simulator staticWlm = .ok static ∧
      Pins realId sim static := by
  have start : (⟨emptySimulator (prog.configure realId), []⟩ : ParseState) =
      ParseState.pin realId ⟨emptySimulator prog, []⟩ := by
    unfold ParseState.pin Simulator.pin emptySimulator
    rw [parseBarriers_configure]
    rfl
  have parse : parseTasks (prog.configure realId).dmaPortCount
      (emptySimulator (prog.configure realId)) (prog.configure realId).tasks =
      (parseTasks prog.dmaPortCount (emptySimulator prog) prog.tasks).map
        (ParseState.pin realId) := by
    unfold parseTasks
    rw [start]
    exact foldlM_parseTask_pin realId prog.dmaPortCount prog.tasks.zipIdx _
  unfold Program.simulator at built ⊢
  rw [parse]
  cases parsed : parseTasks prog.dmaPortCount (emptySimulator prog) prog.tasks with
  | error message =>
    rw [parsed] at built
    cases built
  | ok state =>
    rw [parsed] at built
    cases wlm with
    | true =>
      cases built
      cases staticWlm with
      | true => exact ⟨_, rfl, rfl, rfl, rfl, rfl, rfl, rfl, rfl⟩
      | false => exact ⟨_, rfl, rfl, rfl, rfl, rfl, rfl, rfl, rfl⟩
    | false =>
      cases built
      cases staticWlm with
      | true => exact ⟨_, rfl, rfl, rfl, rfl, rfl, rfl, rfl, rfl⟩
      | false => exact ⟨_, rfl, rfl, rfl, rfl, rfl, rfl, rfl, rfl⟩

end

/-! ### Slots in step -/

/-- The slots of the run with fixed barriers, which may have some slots more. -/
structure PinnedSlots (realId : Nat → Int) (spare : Nat) (lead follow : Slots) : Prop where
  barriers : follow.barriers = pinBarriers realId lead.barriers
  toVirtual : follow.toVirtual = lead.toVirtual ++ List.replicate spare (-1)

section

variable {realId : Nat → Int} {spare : Nat} {lead follow : Slots}

section

variable (pinned : PinnedSlots realId spare lead follow)
include pinned

theorem PinnedSlots.config {v : Nat} (inside : v < lead.barriers.length) :
    follow.config v = { lead.config v with realId := realId v } := by
  rw [Slots.config, pinned.barriers, getD_pinBarriers realId lead.barriers inside, Slots.config]

theorem PinnedSlots.owner {real value : Int} (owned : lead.owner real = some value) :
    follow.owner real = some value := by
  obtain ⟨sign, bound, held⟩ := Slots.owner_of_owned owned
  rw [Slots.owner, if_neg sign.not_gt, pinned.toVirtual, getElem?_append_left bound]
  exact held

theorem PinnedSlots.owner_lead {real value : Int} (owned : follow.owner real = some value)
    (taken : value ≠ -1) : lead.owner real = some value := by
  obtain ⟨sign, -, held⟩ := Slots.owner_of_owned owned
  rw [pinned.toVirtual] at held
  rw [Slots.owner, if_neg sign.not_gt]
  by_cases early : real.toNat < lead.toVirtual.length
  · rw [getElem?_append_left early] at held
    exact held
  · rw [getElem?_append_right (not_lt.mp early)] at held
    exact absurd (eq_of_mem_replicate (mem_of_getElem? held)) taken

theorem PinnedSlots.setConsumerCount (v : Nat) (count : Int) :
    PinnedSlots realId spare (lead.setConsumerCount v count) (follow.setConsumerCount v count) := by
  refine ⟨?_, pinned.toVirtual⟩
  unfold Slots.setConsumerCount
  rw [pinned.barriers]
  exact pinBarriers_modify realId lead.barriers v _ fun _ _ => rfl

theorem PinnedSlots.setProducerCount (v : Nat) (count : Int) :
    PinnedSlots realId spare (lead.setProducerCount v count) (follow.setProducerCount v count) := by
  refine ⟨?_, pinned.toVirtual⟩
  unfold Slots.setProducerCount
  rw [pinned.barriers]
  exact pinBarriers_modify realId lead.barriers v _ fun _ _ => rfl

end

/-- The slots of two runs in step. The barriers mapped so far have the fixed ids. -/
structure Aligned (realId : Nat → Int) (spare : Nat) (hasConsumers : Nat → Prop) (bar count : Nat)
    (lead follow : Slots) : Prop where
  pinned : PinnedSlots realId spare lead follow
  ownership : Ownership hasConsumers true bar lead
  length : lead.barriers.length = count
  assigned : ∀ v < bar, realId v = (lead.config v).realId

variable {hasConsumers : Nat → Prop} {bar total : Nat}

theorem Aligned.mapped (aligned : Aligned realId spare hasConsumers bar total lead follow) {v : Nat}
    (declared : v < total) (mapped : isBarrierMapped true lead v = true)
    (alive : ¬ Released hasConsumers lead v) : isBarrierMapped false follow v = true := by
  rw [← aligned.length] at declared
  have before := aligned.ownership.lt_of_mapped declared mapped
  have owner := aligned.pinned.owner (aligned.ownership.owns v before alive)
  rw [isBarrierMapped, aligned.pinned.config declared]
  simp only [aligned.assigned v before, owner, Bool.false_or, beq_self_eq_true]

variable {v : Nat} {count : Int} {after : Slots} {waits posts : List Nat}

section

variable (aligned : Aligned realId spare hasConsumers bar total lead follow)
include aligned

theorem Aligned.mapped_lead (declared : v < total)
    (mapped : isBarrierMapped false follow v = true) : isBarrierMapped true lead v = true := by
  rw [← aligned.length] at declared
  rw [isBarrierMapped, aligned.pinned.config declared] at mapped
  split at mapped
  · cases mapped
  · next value owned =>
    rw [Bool.false_or, beq_iff_eq] at mapped
    obtain ⟨w, before, same, _⟩ :=
      aligned.ownership.owned _ _ (aligned.pinned.owner_lead owned (by omega)) (by omega)
    have equal : v = w := by omega
    have held := aligned.ownership.inside v (equal ▸ before)
    rw [isBarrierMapped]
    cases owner : lead.owner (lead.config v).realId with
    | none => exact absurd owner held
    | some value => rfl

theorem Aligned.consume (positive : 0 < count) (declared : v < total)
    (consumed : consumeBarrier true count lead v = some after) :
    ∃ following, consumeBarrier false count follow v = some following ∧
      Aligned realId spare hasConsumers bar total after following := by
  have inside : v < lead.barriers.length := aligned.length ▸ declared
  have kept : ∀ following, PinnedSlots realId spare after following →
      Aligned realId spare hasConsumers bar total after following := fun following pinned =>
    ⟨pinned, aligned.ownership.consume positive inside consumed,
      (length_consumeBarrier consumed).trans aligned.length,
      fun w before => (aligned.assigned w before).trans (consumeBarrier_realId consumed w).symm⟩
  obtain ⟨mapped, produced, enough, equal⟩ := consumeBarrier_cases consumed
  have before := aligned.ownership.lt_of_mapped inside mapped
  have alive : ¬ Released hasConsumers lead v := fun gone => by
    have spent := gone.2
    omega
  obtain ⟨-, bound, _⟩ := Slots.owner_of_owned (aligned.ownership.owns v before alive)
  have both := aligned.mapped declared mapped alive
  have counted := aligned.pinned.setConsumerCount v ((lead.config v).consumerCount - count)
  rw [consumeBarrier, aligned.pinned.config inside]
  simp only [both, if_true]
  rw [if_neg (by rw [not_or, not_not, not_lt]; exact ⟨produced, enough⟩)]
  split at equal
  · next last =>
    rw [if_pos last]
    refine ⟨_, rfl, kept _ ?_⟩
    rw [equal]
    refine ⟨counted.barriers, ?_⟩
    show follow.toVirtual.set (realId v).toNat (-1) =
      lead.toVirtual.set (lead.config v).realId.toNat (-1) ++ replicate spare (-1)
    rw [aligned.pinned.toVirtual, aligned.assigned v before, set_append_left _ _ bound]
  · next more =>
    rw [if_neg more]
    refine ⟨_, rfl, kept _ ?_⟩
    rw [equal]
    exact counted

theorem Aligned.produce (positive : 0 < count) (declared : v < total)
    (produced : produceBarrier true count lead v = some after) :
    ∃ following, produceBarrier false count follow v = some following ∧
      Aligned realId spare hasConsumers bar total after following := by
  have inside : v < lead.barriers.length := aligned.length ▸ declared
  obtain ⟨mapped, enough, equal⟩ := produceBarrier_cases produced
  have alive : ¬ Released hasConsumers lead v := fun gone => by
    have none := aligned.ownership.produced v gone
    omega
  have both := aligned.mapped declared mapped alive
  rw [produceBarrier, aligned.pinned.config inside]
  simp only [both, if_true]
  rw [if_neg enough.not_gt]
  refine ⟨_, rfl, ?_, aligned.ownership.produce positive inside produced,
    (length_produceBarrier produced).trans aligned.length,
    fun w before => (aligned.assigned w before).trans (produceBarrier_realId produced w).symm⟩
  rw [equal]
  exact aligned.pinned.setProducerCount v _

end

theorem foldlM_aligned {change other : Slots → Nat → Option Slots} (Related : Slots → Slots → Prop)
    (vids : List Nat)
    (step : ∀ v ∈ vids, ∀ lead follow after, Related lead follow → change lead v = some after →
      ∃ following, other follow v = some following ∧ Related after following)
    (related : Related lead follow) (changed : vids.foldlM change lead = some after) :
    ∃ following, vids.foldlM other follow = some following ∧ Related after following := by
  induction vids generalizing lead follow with
  | nil =>
    cases changed
    exact ⟨follow, rfl, related⟩
  | cons v rest ih =>
    rw [foldlM_cons, Option.bind_eq_bind, Option.bind_eq_some_iff] at changed
    obtain ⟨middle, first, later⟩ := changed
    obtain ⟨between, followed, kept⟩ := step v mem_cons_self lead follow middle related first
    obtain ⟨last, ended, final⟩ := ih
      (forall_mem_cons.mp step).2 kept later
    refine ⟨last, ?_, final⟩
    rw [foldlM_cons, followed]
    exact ended

section

variable (aligned : Aligned realId spare hasConsumers bar total lead follow)
include aligned

theorem Aligned.applyDep (positive : 0 < count) (declared : ∀ v ∈ waits ++ posts, v < total)
    (applied : BarrierSimulator.applyDep true count waits posts lead = some after) :
    ∃ following, BarrierSimulator.applyDep false count waits posts follow = some following ∧
      Aligned realId spare hasConsumers bar total after following := by
  obtain ⟨consumed, first, second⟩ := applyDep_cases applied
  obtain ⟨between, followed, middle⟩ := foldlM_aligned
    (Aligned realId spare hasConsumers bar total) waits
    (fun v mem _ _ _ kept changed =>
      kept.consume positive (declared v (mem_append_left _ mem)) changed) aligned first
  obtain ⟨last, ended, final⟩ := foldlM_aligned
    (Aligned realId spare hasConsumers bar total) posts
    (fun v mem _ _ _ kept changed =>
      kept.produce positive (declared v (mem_append_right _ mem)) changed) middle second
  refine ⟨last, ?_, final⟩
  rw [BarrierSimulator.applyDep, followed]
  exact ended

theorem Aligned.isReady_lead (declared : ∀ v ∈ waits ++ posts, v < total)
    (ready : isReady false follow waits posts = true) : isReady true lead waits posts = true := by
  unfold isReady at ready ⊢
  simp only [Bool.and_eq_true, all_eq_true, decide_eq_true_eq] at ready ⊢
  refine ⟨fun v mem => ?_, fun v mem => ?_⟩
  · have inside := declared v (mem_append_left _ mem)
    obtain ⟨mapped, produced⟩ := ready.1 v mem
    rw [aligned.pinned.config (aligned.length ▸ inside)] at produced
    exact ⟨aligned.mapped_lead inside mapped, produced⟩
  · exact aligned.mapped_lead (declared v (mem_append_right _ mem)) (ready.2 v mem)

/-- The barriers that a processed task uses are mapped and not released, so that the task is
ready in the following run as well. -/
theorem Aligned.isReady (positive : 0 < count) (declared : ∀ v ∈ waits ++ posts, v < total)
    (ready : BarrierSimulator.isReady true lead waits posts = true)
    (applied : BarrierSimulator.applyDep true count waits posts lead = some after) :
    BarrierSimulator.isReady false follow waits posts = true := by
  have counts := fun w => applyDep_counts positive
    (fun v mem => by rw [aligned.length]; exact declared v mem) applied w
  unfold BarrierSimulator.isReady at ready ⊢
  simp only [Bool.and_eq_true, all_eq_true, decide_eq_true_eq] at ready ⊢
  refine ⟨fun v mem => ?_, fun v mem => ?_⟩
  · have inside := declared v (mem_append_left _ mem)
    have enough := (counts v).2.2.1 mem
    refine ⟨aligned.mapped inside (ready.1 v mem).1 fun gone => ?_, ?_⟩
    · have spent := gone.2
      omega
    · rw [aligned.pinned.config (aligned.length ▸ inside)]
      exact (ready.1 v mem).2
  · have inside := declared v (mem_append_right _ mem)
    have enough := (counts v).2.2.2 mem
    refine aligned.mapped inside (ready.2 v mem) fun gone => ?_
    have none := aligned.ownership.produced v gone
    omega

end

end

/-! ### Runs in step -/

/-- What the rest of a run says about the fixed ids: the barriers mapped so far have them, and
the next barrier is not mapped to an id that is rejected for it. -/
structure Assigned (sim : Simulator) (realId : Nat → Int) (state : State) : Prop where
  mapped : ∀ v < state.bar, realId v = (state.slots.config v).realId
  next : state.bar < state.slots.barriers.length → sim.samePidTopoDep = true →
    ¬ Rejected (sim.barrierControlMap.getD state.bar []) state.prevVidOfPhysBar
      (realId state.bar)

/-- Two runs in step. -/
structure Lockstep (sim : Simulator) (realId : Nat → Int) (limit spare : Nat)
    (lead follow : State) : Prop where
  sound : lead.Sound sim limit
  pinned : PinnedSlots realId spare lead.slots follow.slots
  bar : follow.bar = lead.bar
  heads : follow.heads = lead.heads
  status : follow.multiQueueDmaTaskStatus = lead.multiQueueDmaTaskStatus
  progressed : follow.progressed = lead.progressed

section

variable {sim static : Simulator} {realId : Nat → Int} {limit spare : Nat} {state after : State}

theorem mapBarrier_assigned (later : Assigned sim realId after)
    (dynamic : sim.isDynamicBarriers = true) (turn : (mapBarrier sim state).LeadsTo after) :
    Assigned sim realId state := by
  rcases turn with next | leave
  · obtain ⟨guard, real, ring, picked, _, equal⟩ := mapBarrier_next next
    have bar : after.bar = state.bar + 1 := by rw [equal]; rfl
    have chosen : realId state.bar = real := by
      rw [later.mapped state.bar (by omega), equal, config_bindReal_self guard.1]
    refine ⟨fun v before => ?_, fun _ same => ?_⟩
    · rw [later.mapped v (by omega), equal, config_bindReal_ne (by omega)]
    · rw [chosen]
      rw [pickReal, if_pos dynamic, if_pos same] at picked
      exact pickPid_accepted _ picked
  · rcases mapBarrier_leave leave with ⟨_, equal⟩ | ⟨_, _, _, equal⟩
    · rw [← equal]
      exact later
    · rw [equal] at later
      exact ⟨later.mapped, later.next⟩

theorem advanceQueue_assigned {index : Nat} (later : Assigned sim realId after)
    (turn : (advanceQueue sim index state).LeadsTo after) : Assigned sim realId state := by
  rcases turn with next | leave
  · obtain ⟨user, _, passed | done⟩ := advanceQueue_next next
    · rw [passed.2] at later
      exact ⟨later.mapped, later.next⟩
    · obtain ⟨_, slots, success, equal⟩ := done
      obtain ⟨length, ids⟩ := applyDep_frame (processSim_success success).2
      rw [equal] at later
      refine ⟨fun v before => ?_, fun inside same => ?_⟩
      · rw [later.mapped v before]
        exact ids v
      · exact later.next (by rw [← length] at inside; exact inside) same
  · rw [← (advanceQueue_leave leave).1]
    exact later

variable (pins : Pins realId sim static) (dynamic : sim.isDynamicBarriers = true)

section

include pins dynamic

omit dynamic in
theorem mapBarrier_follows {lead after follow : State} (later : Assigned sim realId after)
    (lockstep : Lockstep sim realId limit spare lead follow)
    (turn : mapBarrier sim lead = .next after) :
    ∃ following, mapBarrier static follow = .next following ∧
      Lockstep sim realId limit spare after following := by
  obtain ⟨guard, real, ring, picked, sign, equal⟩ := mapBarrier_next turn
  have free := pickReal_free lockstep.sound.owned guard picked
  obtain ⟨_, bound, _⟩ := Slots.owner_of_owned free
  have bar : after.bar = lead.bar + 1 := by rw [equal]; rfl
  have chosen : realId lead.bar = real := by
    rw [later.mapped lead.bar (by omega), equal, config_bindReal_self guard.1]
  have own : (follow.slots.config follow.bar).realId = real := by
    rw [lockstep.bar, lockstep.pinned.config guard.1, chosen]
  have inside : follow.bar < follow.slots.barriers.length := by
    rw [lockstep.bar, lockstep.pinned.barriers, length_pinBarriers]
    exact guard.1
  have mapped : mapBarrier static follow = .next (bindReal follow real follow.slots.nextReal) := by
    have possible : hasBarriersToMap static follow = true := by
      rw [hasBarriersToMap_static pins.fixed, own]
      exact lockstep.pinned.owner free
    refine mapBarrier_of_picked ⟨inside, possible⟩ ?_ sign
    rw [pickReal_static pins.fixed, own]
  refine ⟨_, mapped, mapBarrier_sound lockstep.sound (.inl turn), ⟨?_, ?_⟩, ?_, ?_, ?_, ?_⟩
  · rw [equal]
    show follow.slots.barriers.modify follow.bar _ = pinBarriers realId _
    rw [lockstep.pinned.barriers, lockstep.bar, ← chosen]
    exact pinBarriers_modify_realId realId lead.slots.barriers lead.bar
  · rw [equal]
    show follow.slots.toVirtual.set real.toNat follow.bar =
      lead.slots.toVirtual.set real.toNat lead.bar ++ replicate spare (-1)
    rw [lockstep.pinned.toVirtual, lockstep.bar, set_append_left _ _ bound]
  · rw [equal]
    exact congrArg (· + 1) lockstep.bar
  · rw [equal]
    exact lockstep.heads
  · rw [equal]
    exact lockstep.status
  · rw [equal]
    rfl

theorem mapBarrier_waits {lead after follow : State}
    (range : ∀ v < sim.barriers.length, 0 ≤ realId v ∧ (realId v).toNat < limit)
    (later : Assigned sim realId after) (lockstep : Lockstep sim realId limit spare lead follow)
    (turn : mapBarrier sim lead = .leave after) :
    ∃ following, mapBarrier static follow = .leave following ∧
      Lockstep sim realId limit spare after following := by
  have sound := mapBarrier_sound lockstep.sound (.inr turn)
  have assigned := mapBarrier_assigned later dynamic (.inr turn)
  have ring := lockstep.sound.owned.free dynamic
  -- The slot of the next barrier would have been found free and accepted.
  have taken : lead.bar < lead.slots.barriers.length →
      lead.slots.owner (realId lead.bar) ≠ some (-1) := by
    intro inside free
    have mem := (ring.mem_iff (realId lead.bar)).mpr free
    rcases mapBarrier_leave turn with ⟨blocked, _⟩ | ⟨-, after, picked, _⟩
    · refine blocked ⟨inside, (hasBarriersToMap_dynamic dynamic).mpr ?_⟩
      rw [← RingBuffer.contents_length]
      exact length_pos_of_mem mem
    · rw [pickReal, if_pos dynamic] at picked
      split at picked
      · next same =>
        obtain ⟨_, _, _, all⟩ := pickPid_none _ ring.coherent le_rfl picked
        refine assigned.next inside same (all _ ?_)
        rw [take_of_length_le (RingBuffer.contents_length _).le]
        exact mem
      · cases picked
  have blocked : ¬ MapGuard static follow := by
    intro guard
    have inside : lead.bar < lead.slots.barriers.length := by
      rw [← length_pinBarriers realId lead.slots.barriers, ← lockstep.pinned.barriers,
        ← lockstep.bar]
      exact guard.1
    have free := (hasBarriersToMap_static pins.fixed).mp guard.2
    rw [lockstep.bar, lockstep.pinned.config inside] at free
    obtain ⟨sign, bound⟩ := range lead.bar (lockstep.sound.length ▸ inside)
    rw [← lockstep.sound.size] at bound
    have held : lead.slots.owner (realId lead.bar) = some
      lead.slots.toVirtual[(realId lead.bar).toNat] := by
      rw [Slots.owner, if_neg sign.not_gt, getElem?_eq_getElem bound]
    have same := lockstep.pinned.owner held
    rw [free, Option.some.injEq] at same
    exact taken inside (by rw [held, ← same])
  refine ⟨follow, mapBarrier_of_not_guard blocked, ?_⟩
  rcases mapBarrier_leave turn with ⟨_, equal⟩ | ⟨_, _, _, equal⟩
  · rw [equal]
    exact lockstep
  · rw [equal] at sound ⊢
    exact ⟨sound, ⟨lockstep.pinned.barriers, lockstep.pinned.toVirtual⟩,
      lockstep.bar, lockstep.heads, lockstep.status, lockstep.progressed⟩

section

variable {index : Nat} {lead after follow : State} (wellFormed : sim.WellFormed)
  (later : Assigned sim realId after) (lockstep : Lockstep sim realId limit spare lead follow)
include wellFormed later lockstep

theorem advanceQueue_follows (turn : advanceQueue sim index lead = .next after) :
    ∃ following, advanceQueue static index follow = .next following ∧
      Lockstep sim realId limit spare after following := by
  have sound := advanceQueue_sound wellFormed lockstep.sound (.inl turn)
  have assigned := advanceQueue_assigned later (.inl turn)
  obtain ⟨user, found, cases⟩ := advanceQueue_next turn
  have sameHead : follow.head index = lead.head index := by
    rw [State.head, lockstep.heads, State.head]
  have queue : (static.queue index)[follow.head index]? = some user := by
    rw [Simulator.queue, pins.queues, sameHead]
    exact found
  have item : multiQueueItem static follow index = multiQueueItem sim lead index := by
    rw [multiQueueItem, pins.dmaTasks, lockstep.status, sameHead, multiQueueItem]
  have processed : isProcessed follow (multiQueueItem static follow index) =
      isProcessed lead (multiQueueItem sim lead index) := by
    rw [item]
    unfold isProcessed
    rw [lockstep.status]
  rcases cases with ⟨behind, equal⟩ | ⟨pending, slots, success, equal⟩
  · refine ⟨passTask follow index, ?_, ?_⟩
    · exact advanceQueue_of_processed queue (processed.trans behind)
    · rw [equal] at sound ⊢
      exact ⟨sound, lockstep.pinned, lockstep.bar,
        congrArg (fun heads => heads.modify index (· + 1)) lockstep.heads, lockstep.status, rfl⟩
  · rw [dynamic] at success
    obtain ⟨ready, applied⟩ := processSim_success success
    have mem : user ∈ sim.queue index := mem_of_getElem? found
    have positive := wellFormed.positive index user mem
    have declared := wellFormed.declared index user mem
    have aligned : Aligned realId spare sim.HasConsumers lead.bar sim.barriers.length lead.slots
        follow.slots :=
      ⟨lockstep.pinned, dynamic ▸ lockstep.sound.owned, lockstep.sound.length, assigned.mapped⟩
    obtain ⟨between, followed, kept⟩ := aligned.applyDep positive declared applied
    have also := aligned.isReady positive declared ready applied
    refine ⟨finishTask follow index (multiQueueItem static follow index) between, ?_, ?_⟩
    · have process : processSim static.isDynamicBarriers static.vdt user follow.slots =
          .Success between := by
        rw [pins.fixed, pins.vdt]
        unfold processSim
        simp only [also, if_true, followed]
      exact advanceQueue_of_success queue (processed.trans pending) process
    · rw [equal] at sound ⊢
      rw [item]
      refine ⟨sound, kept.pinned, lockstep.bar,
        congrArg (fun heads => heads.modify index (· + 1)) lockstep.heads, ?_, rfl⟩
      unfold finishTask passTask
      simp only [lockstep.status]

theorem advanceQueue_waits (turn : advanceQueue sim index lead = .leave after) :
    ∃ following, advanceQueue static index follow = .leave following ∧
      Lockstep sim realId limit spare after following := by
  have assigned := advanceQueue_assigned later (.inr turn)
  obtain ⟨equal, cases⟩ := advanceQueue_leave turn
  have sameHead : follow.head index = lead.head index := by
    rw [State.head, lockstep.heads, State.head]
  have queue : (static.queue index)[follow.head index]? = (sim.queue index)[lead.head index]? := by
    rw [Simulator.queue, pins.queues, sameHead, Simulator.queue]
  refine ⟨follow, ?_, equal ▸ lockstep⟩
  rcases cases with ended | ⟨user, found, pending, skipped⟩
  · rw [advanceQueue, queue, ended]
  · rw [dynamic] at skipped
    have waiting := processSim_skip skipped
    have item : multiQueueItem static follow index = multiQueueItem sim lead index := by
      rw [multiQueueItem, pins.dmaTasks, lockstep.status, sameHead, multiQueueItem]
    have processed : isProcessed follow (multiQueueItem static follow index) = false := by
      rw [item, ← pending]
      unfold isProcessed
      rw [lockstep.status]
    have aligned : Aligned realId spare sim.HasConsumers lead.bar sim.barriers.length lead.slots
        follow.slots :=
      ⟨lockstep.pinned, dynamic ▸ lockstep.sound.owned, lockstep.sound.length, assigned.mapped⟩
    have declared := wellFormed.declared index user (mem_of_getElem? found)
    have notReady : isReady false follow.slots (sim.vdt.waits user.virtualDep)
        (sim.vdt.posts user.virtualDep) = false := by
      by_contra ready
      have also := aligned.isReady_lead declared (Bool.eq_true_of_not_eq_false ready)
      rw [waiting] at also
      cases also
    have process : processSim static.isDynamicBarriers static.vdt user follow.slots = .Skip := by
      rw [pins.fixed, pins.vdt]
      unfold processSim
      simp only [notReady, Bool.false_eq_true, if_false]
    exact advanceQueue_of_skip (queue.trans found) processed process

end

/-! ### The loops -/

theorem mapBarriers_inStep
    (range : ∀ v < sim.barriers.length, 0 ≤ realId v ∧ (realId v).toNat < limit) :
    Run.InStep (Lockstep sim realId limit spare) (Assigned sim realId) (mapBarriers sim)
      (mapBarriers static) := by
  intro lead after follow later lockstep res
  have fuel : follow.slots.barriers.length - follow.bar + 1 =
      lead.slots.barriers.length - lead.bar + 1 := by
    rw [lockstep.pinned.barriers, length_pinBarriers, lockstep.bar]
  unfold mapBarriers at res ⊢
  rw [fuel]
  exact Turn.loop_inStep _ _ (fun _ _ kept turn => mapBarrier_assigned kept dynamic turn)
    (fun _ _ _ kept step turn => mapBarrier_follows pins kept step turn)
    (fun _ _ _ kept step turn => mapBarrier_waits pins dynamic range kept step turn) _ lead after
    follow later lockstep res

theorem processQueue_inStep (wellFormed : sim.WellFormed) (index : Nat) :
    Run.InStep (Lockstep sim realId limit spare) (Assigned sim realId)
      (fun state => processQueue sim state index) fun state => processQueue static state index := by
  intro lead after follow later lockstep res
  have fuel : (static.queue index).length - follow.head index + 1 =
      (sim.queue index).length - lead.head index + 1 := by
    rw [Simulator.queue, pins.queues, State.head, lockstep.heads, Simulator.queue, State.head]
  simp only [processQueue] at res ⊢
  rw [fuel]
  exact Turn.loop_inStep _ _ (fun _ _ kept turn => advanceQueue_assigned kept turn)
    (fun _ _ _ kept step turn => advanceQueue_follows pins dynamic wellFormed kept step turn)
    (fun _ _ _ kept step turn => advanceQueue_waits pins dynamic wellFormed kept step turn) _ lead
    after follow later lockstep res

omit pins in
theorem mapBarriers_reflects : Run.Reflects (Assigned sim realId) (mapBarriers sim) :=
  fun state _ => Turn.loop_reflects _
    (fun _ _ kept turn => mapBarrier_assigned kept dynamic turn) _ state _

omit pins dynamic in
theorem processQueue_reflects (index : Nat) :
    Run.Reflects (Assigned sim realId) fun state => processQueue sim state index :=
  fun state _ => Turn.loop_reflects _
    (fun _ _ kept turn => advanceQueue_assigned kept turn) _ state _

omit pins dynamic in
theorem processQueues_reflects : Run.Reflects (Assigned sim realId) (processQueues sim) :=
  Run.Reflects.foldlM _ fun index _ => processQueue_reflects index

theorem processQueues_inStep (wellFormed : sim.WellFormed) :
    Run.InStep (Lockstep sim realId limit spare) (Assigned sim realId) (processQueues sim)
      (processQueues static) := by
  unfold processQueues
  rw [pins.queues]
  exact Run.InStep.foldlM _
    (fun index _ => processQueue_inStep pins dynamic wellFormed index)
    fun index _ => processQueue_reflects index

omit dynamic in
theorem isUnfinished_follows {lead follow : State}
    (lockstep : Lockstep sim realId limit spare lead follow) :
    isUnfinished static follow = isUnfinished sim lead := by
  unfold isUnfinished Simulator.queue State.head
  rw [pins.queues, lockstep.bar, lockstep.heads, lockstep.pinned.barriers, length_pinBarriers]

theorem iteration_follows (wellFormed : sim.WellFormed)
    (range : ∀ v < sim.barriers.length, 0 ≤ realId v ∧ (realId v).toNat < limit) (more : Nat)
    {lead after follow : State} (later : Assigned sim realId after)
    (lockstep : Lockstep sim realId limit spare lead follow)
    (turn : iteration sim ⟨limit, false⟩ lead = .next after) :
    ∃ following, iteration static ⟨more, false⟩ follow = .next following ∧
      Lockstep sim realId limit spare after following := by
  obtain ⟨unfinished, res⟩ := iteration_next turn
  obtain ⟨ran, progress⟩ := iterate_ok res
  have start : Lockstep sim realId limit spare { lead with progressed := false }
      { follow with progressed := false } :=
    ⟨⟨lockstep.sound.length, lockstep.sound.size, lockstep.sound.owned⟩, lockstep.pinned,
      lockstep.bar,
      lockstep.heads, lockstep.status, rfl⟩
  obtain ⟨following, followed, kept⟩ :=
    (mapBarriers_inStep pins dynamic range).bind (processQueues_inStep pins dynamic wellFormed)
      processQueues_reflects _ after _ later start ran
  refine ⟨following, ?_, kept⟩
  have also : iterate static ⟨more, false⟩ follow = .ok following := by
    beta_reduce at followed
    rw [iterate_eq, followed]
    simp only [bind, Except.bind, kept.progressed.trans progress, if_true]
  rw [iteration, isUnfinished_follows pins lockstep, if_pos unfinished, also]

end

theorem iteration_assigned (dynamic : sim.isDynamicBarriers = true)
    (later : Assigned sim realId after)
    (turn : (iteration sim ⟨limit, false⟩ state).LeadsTo after) : Assigned sim realId state := by
  rcases turn with next | leave
  · have reflected := (mapBarriers_reflects dynamic).bind processQueues_reflects _ after later
      (iterate_ok (iteration_next next).2).1
    exact ⟨reflected.mapped, reflected.next⟩
  · rw [← (iteration_leave leave).2]
    exact later

end

/-! ### The whole simulation -/

/-- `checkProducerCount`, for the number of slots of the device. -/
def checkProducerCount (sim : Simulator) (barrierProducerSlotCount : Int) : Bool :=
  sim.barriers.all fun config => decide (config.producerCount ≤ barrierProducerSlotCount)

def checkProducerAndConsumerCount (sim : Simulator) (barrierTotalSlotCount : Int) : Bool :=
  sim.barriers.all fun config =>
    decide (config.producerCount + config.consumerCount ≤ barrierTotalSlotCount)

theorem all_pinBarriers (realId : Nat → Int) (barriers : List BarrierConfig)
    (check : BarrierConfig → Bool)
    (counts : ∀ config real, check { config with realId := real } = check config) :
    (pinBarriers realId barriers).all check = barriers.all check := by
  rw [Bool.eq_iff_iff, all_eq_true, all_eq_true]
  constructor
  · intro all config mem
    obtain ⟨v, found⟩ := mem_iff_getElem?.mp mem
    have pinned : (pinBarriers realId barriers)[v]? = some { config with realId := realId v } := by
      rw [getElem?_pinBarriers, found]
      rfl
    rw [← counts config (realId v)]
    exact all _ (mem_of_getElem? pinned)
  · intro all config mem
    obtain ⟨v, found⟩ := mem_iff_getElem?.mp mem
    rw [getElem?_pinBarriers] at found
    obtain ⟨original, held, equal⟩ := Option.map_eq_some_iff.mp found
    rw [← equal, counts]
    exact all original (mem_of_getElem? held)

def State.realId (state : State) (v : Nat) : Int := (state.slots.config v).realId

/-- When a program of virtual barriers can be simulated, the same program with every barrier
fixed to the physical id recorded for it can be simulated with the same number of barriers and
with any larger number that is available, and it passes the checks of the counts that the
virtual one passes. -/
theorem assigned_barriers_simulate (prog : Program) (wlm staticWlm : Bool) (sim : Simulator)
    (built : prog.simulator wlm = .ok sim) (dynamic : sim.isDynamicBarriers = true)
    (numBarriers : Option Int) (fuel : Nat) (final : State)
    (simulated : simulateBarriers sim numBarriers false fuel = .ok final) :
    ∃ static, (prog.configure final.realId).simulator staticWlm = .ok static ∧
      static.isDynamicBarriers = false ∧
      (∀ slotCount, checkProducerCount static slotCount = checkProducerCount sim slotCount ∧
        checkProducerAndConsumerCount static slotCount =
          checkProducerAndConsumerCount sim slotCount) ∧
      ∀ more : Option Int,
        numBarriers.getD prog.availableBarriers ≤ more.getD prog.availableBarriers →
        more.getD prog.availableBarriers ≤ prog.availableBarriers →
        ∃ last, simulateBarriers static more false fuel = .ok last := by
  obtain ⟨static, parsedStatic, pins⟩ := simulator_configure final.realId built staticWlm
  have parsed := simulator_parsed built
  have wellFormed := parsed.wellFormed
  obtain ⟨sign, -, run, finished⟩ := simulateBarriers_ok simulated
  have sound : final.Sound sim (numBarriers.getD sim.availableBarriers).toNat :=
    Turn.loop_preserves _ (fun _ _ kept turn => iteration_sound wellFormed kept turn) fuel _ final
    (initialState_sound parsed _) run
  refine ⟨static, parsedStatic, pins.fixed, fun slotCount => ⟨?_, ?_⟩, fun more larger atMost => ?_⟩
  · rw [checkProducerCount, pins.barriers]
    exact all_pinBarriers _ _ _ fun _ _ => rfl
  · rw [checkProducerAndConsumerCount, pins.barriers]
    exact all_pinBarriers _ _ _ fun _ _ => rfl
  · have available : static.availableBarriers = prog.availableBarriers :=
      pins.available.trans parsed.available
    have larger : numBarriers.getD sim.availableBarriers ≤
        more.getD static.availableBarriers := by
      rw [available, parsed.available]
      exact larger
    rw [← available] at atMost
    have smaller : (numBarriers.getD sim.availableBarriers).toNat ≤
        (more.getD static.availableBarriers).toNat := Int.toNat_le_toNat larger
    have all := (isUnfinished_false.mp finished).1
    have count : final.bar = final.slots.barriers.length := le_antisymm sound.owned.bar_le all
    have range : ∀ v < sim.barriers.length, 0 ≤ final.realId v ∧
        (final.realId v).toNat < (numBarriers.getD sim.availableBarriers).toNat := by
      intro v inside
      obtain ⟨value, held⟩ := Option.ne_none_iff_exists'.mp
        (sound.owned.inside v (by rw [count, sound.length]; exact inside))
      obtain ⟨nonneg, bound, _⟩ := Slots.owner_of_owned held
      exact ⟨nonneg, sound.size ▸ bound⟩
    have later : Assigned sim final.realId final :=
      ⟨fun _ _ => rfl, fun inside => absurd inside all.not_gt⟩
    have start : Lockstep sim final.realId (numBarriers.getD sim.availableBarriers).toNat
        ((more.getD static.availableBarriers).toNat -
          (numBarriers.getD sim.availableBarriers).toNat)
        (initialState sim (numBarriers.getD sim.availableBarriers).toNat)
        (initialState static (more.getD static.availableBarriers).toNat) := by
      refine ⟨initialState_sound parsed _, ⟨pins.barriers, ?_⟩, rfl, ?_, pins.status, rfl⟩
      · show replicate _ (-1) = replicate _ (-1) ++ replicate _ (-1)
        rw [replicate_append_replicate, Nat.add_sub_cancel' smaller]
      · show replicate static.queues.length 0 = replicate sim.queues.length 0
        rw [pins.queues]
    obtain ⟨last, ran, kept⟩ := Turn.loop_inStep _ _
      (fun _ _ known turn => iteration_assigned dynamic known turn)
      (fun _ _ _ known step turn => iteration_follows pins dynamic wellFormed range
        (more.getD static.availableBarriers).toNat known step turn)
      (fun lead after follow _ step turn => by
        obtain ⟨done, equal⟩ := iteration_leave turn
        refine ⟨follow, ?_, equal ▸ step⟩
        rw [iteration, isUnfinished_follows pins step, done]
        rfl) fuel _ final _ later start run
    exact ⟨last, simulateBarriers_of_loop (sign.trans larger) atMost ran
      ((isUnfinished_follows pins kept).trans finished)⟩

/-- A chain of tasks over three barriers, on two DMA queues, the NCE and the ACT queue. -/
def chainProgram : Program where
  dmaPortCount := 2
  independentDmaQueues := 4
  availableBarriers := 3
  barriers := .declared 3
  tasks := [⟨.DMA_NN 1 none (some .DDR), [], [0]⟩, ⟨.DMA_NN 0 none (some .CMX), [0], [1]⟩,
    ⟨.DPU 2 (by decide), [1], [2]⟩, ⟨.SHAVE_ACT, [2], []⟩]
  declared := by decide

/-- The chain is simulated with two barriers that rotate, and its assignment with two and with
all three. -/
theorem assigned_barriers_simulate_chain :
    ∃ sim final, chainProgram.simulator true = .ok sim ∧
      simulateBarriers sim (some 2) false 10 = .ok final ∧
      ∃ static, (chainProgram.configure final.realId).simulator false = .ok static ∧
        (∃ last, simulateBarriers static (some 2) false 10 = .ok last) ∧
        ∃ last, simulateBarriers static none false 10 = .ok last := by
  obtain ⟨sim, built, checked⟩ := Run.exists_ok (chainProgram.simulator true)
    (fun sim => sim.isDynamicBarriers &&
      (simulateBarriers sim (some 2) false 10).toOption.any fun _ => true) (by decide)
  rw [Bool.and_eq_true] at checked
  obtain ⟨final, simulated, _⟩ := Run.exists_ok _ _ checked.2
  obtain ⟨static, parsed, _, _, runs⟩ := assigned_barriers_simulate chainProgram true false sim
    built checked.1 (some 2) 10 final simulated
  exact ⟨sim, final, built, simulated, static, parsed, runs (some 2) (by decide) (by decide),
    runs none (by decide) (by decide)⟩

end NpuPlugin.BarrierSimulator
