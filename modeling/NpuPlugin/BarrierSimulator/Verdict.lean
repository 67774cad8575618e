/-
This file proves that the verdict of the simulation does not depend on the order in which the queues
are advanced: mapping a barrier and passing a task are actions of a monotone system, and every run
that can not go on performs the same ones.
-/

import NpuPlugin.BarrierSimulator.Processing
import NpuPlugin.Library.Submission

namespace NpuPlugin.BarrierSimulator

open Finset Option Slots

/-! ### The system -/

/-- Mapping a barrier, or passing an entry of a queue. -/
inductive Action
  | map (v : Nat)
  | advance (index position : Nat)

section

variable (sim : Simulator) (tasks : List TaskOp) (performed : Set Action)

def PassedIn (task : Nat) : Prop :=
  ∃ index position user, .advance index position ∈ performed ∧
    (sim.queue index)[position]? = some user ∧ user.task = task

def ProducedIn (v : Nat) : Prop :=
  ∀ task < tasks.length, producesAt tasks v task ≠ 0 → PassedIn sim performed task

def ReleasedIn (v : Nat) : Prop :=
  sim.HasConsumers v ∧
    ∀ task < tasks.length, consumesAt tasks v task ≠ 0 → PassedIn sim performed task

/-- The barriers of the entry are mapped, and those it waits for are produced. -/
def ReadyIn (user : BarrierUserConfig) : Prop :=
  (∀ v ∈ sim.vdt.waits user.virtualDep ++ sim.vdt.posts user.virtualDep, .map v ∈ performed) ∧
    ∀ v ∈ sim.vdt.waits user.virtualDep, ProducedIn sim tasks performed v

open Classical in
/-- The barriers before this one that still own a slot. -/
noncomputable def heldBefore (v : Nat) : Finset Nat :=
  (range v).filter fun u => ¬ ReleasedIn sim tasks performed u

/-- There is a slot for the barrier: any one in dynamic mode, its own one in static mode. -/
def SlotFree (limit : Nat) (v : Nat) : Prop :=
  if sim.isDynamicBarriers then (heldBefore sim tasks performed v).card < limit
  else
    let real := (sim.barriers.getD v default).realId
    0 ≤ real ∧ real.toNat < limit ∧
      ∀ u < v, (sim.barriers.getD u default).realId = real → ReleasedIn sim tasks performed u

/-- When an action is enabled. -/
def EnabledIn (limit : Nat) : Action → Prop
  | .map v => v < sim.barriers.length ∧ (∀ u < v, .map u ∈ performed) ∧
      SlotFree sim tasks performed limit v
  | .advance index position => (∀ before < position, .advance index before ∈ performed) ∧
      ∃ user, (sim.queue index)[position]? = some user ∧
        (PassedIn sim performed user.task ∨ ReadyIn sim tasks performed user)

end

variable {v : Nat} {user : BarrierUserConfig}

section

variable {sim : Simulator} {tasks : List TaskOp} {fewer more : Set Action}

section

variable (subset : fewer ⊆ more)
include subset

theorem PassedIn.mono {task : Nat} (passed : PassedIn sim fewer task) : PassedIn sim more task := by
  obtain ⟨index, position, user, mem, found, same⟩ := passed
  exact ⟨index, position, user, subset mem, found, same⟩

theorem ReleasedIn.mono (released : ReleasedIn sim tasks fewer v) : ReleasedIn sim tasks more v :=
  ⟨released.1, fun task inside nonzero => (released.2 task inside nonzero).mono subset⟩

theorem SlotFree.mono {limit : Nat} (free : SlotFree sim tasks fewer limit v) :
    SlotFree sim tasks more limit v := by
  unfold SlotFree at free ⊢
  split
  · next dynamic =>
    rw [if_pos dynamic] at free
    refine lt_of_le_of_lt (card_le_card fun u mem => ?_) free
    simp only [heldBefore, mem_filter] at mem ⊢
    exact ⟨mem.1, fun released => mem.2 (released.mono subset)⟩
  · next static =>
    rw [if_neg static] at free
    exact ⟨free.1, free.2.1, fun u before same => (free.2.2 u before same).mono subset⟩

theorem ReadyIn.mono (ready : ReadyIn sim tasks fewer user) : ReadyIn sim tasks more user :=
  ⟨fun v mem => subset (ready.1 v mem),
    fun v mem task inside nonzero => (ready.2 v mem task inside nonzero).mono subset⟩

end

end

/-- The actions of a simulation. -/
def actionSystem (sim : Simulator) (tasks : List TaskOp) (limit : Nat) :
    MonotoneSystem Action where
  Enabled := fun performed action => EnabledIn sim tasks performed limit action
  monotone := by
    intro fewer more action subset enabled
    cases action with
    | map v =>
      obtain ⟨inside, before, free⟩ := enabled
      exact ⟨inside, fun u earlier => subset (before u earlier), free.mono subset⟩
    | advance index position =>
      obtain ⟨before, user, found, passed | ready⟩ := enabled
      · exact ⟨fun earlier less => subset (before earlier less), user, found,
          .inl (passed.mono subset)⟩
      · exact ⟨fun earlier less => subset (before earlier less), user, found,
          .inr (ready.mono subset)⟩

/-- The actions behind a state. -/
def performed (state : State) : Set Action := fun action =>
  match action with
  | .map v => v < state.bar
  | .advance index position => position < state.head index

variable {state : State}

@[simp] theorem map_mem_performed : .map v ∈ performed state ↔ v < state.bar := Iff.rfl

@[simp] theorem advance_mem_performed {index position : Nat} :
    .advance index position ∈ performed state ↔ position < state.head index := Iff.rfl

/-! ### States and actions -/

/-- What holds of the states of a simulation without legalization. -/
structure Sane (prog : Program) (sim : Simulator) (limit : Nat) (state : State) : Prop where
  sound : State.Sound sim limit state
  accounted : Accounted prog.tasks sim state
  static : sim.isDynamicBarriers = false → ∀ v,
    (state.slots.config v).realId = (sim.barriers.getD v default).realId
  head_le : ∀ index, state.head index ≤ (sim.queue index).length
  run : (actionSystem sim prog.tasks limit).Performed (performed state)

section

variable {prog : Program} {sim : Simulator} {limit : Nat} {state : State}

section

variable (sane : Sane prog sim limit state)
include sane

theorem Sane.released_iff (before : v < state.bar) :
    Released sim.HasConsumers state.slots v ↔
      ReleasedIn sim prog.tasks (performed state) v := by
  have inside : v < sim.barriers.length := by
    rw [← sane.sound.length]
    exact before.trans_le sane.sound.owned.bar_le
  unfold Released ReleasedIn
  rw [sane.accounted.consumers v inside, outstanding_eq_zero (consumesAt_nonneg prog.tasks v)]
  rfl

theorem Sane.produced_iff (inside : v < sim.barriers.length) :
    (state.slots.config v).producerCount ≤ 0 ↔
      ProducedIn sim prog.tasks (performed state) v := by
  rw [sane.accounted.producers v inside]
  have nonneg : 0 ≤ outstanding (producesAt prog.tasks v) prog.tasks.length
      (Done sim state) := outstanding_nonneg (producesAt_nonneg prog.tasks v)
  rw [show ProducedIn sim prog.tasks (performed state) v ↔
      outstanding (producesAt prog.tasks v) prog.tasks.length (Done sim state) = 0 from
    (outstanding_eq_zero (producesAt_nonneg prog.tasks v)).symm]
  exact ⟨fun small => le_antisymm small nonneg, fun zero => zero.le⟩

theorem Sane.mem_heldBefore {u : Nat} :
    u ∈ heldBefore sim prog.tasks (performed state) state.bar ↔
      u < state.bar ∧ ¬ Released sim.HasConsumers state.slots u := by
  simp only [heldBefore, mem_filter, mem_range]
  refine and_congr_right fun before => ?_
  rw [sane.released_iff before]

theorem Sane.ring_filled_iff (dynamic : sim.isDynamicBarriers = true) :
    0 < state.slots.nextReal.size ↔
      (heldBefore sim prog.tasks (performed state) state.bar).card < limit := by
  have ring := sane.sound.owned.free dynamic
  have size := sane.sound.size
  constructor
  · intro filled
    obtain ⟨real, mem⟩ : ∃ real, real ∈ state.slots.nextReal.contents := by
      refine List.exists_mem_of_length_pos ?_
      rw [RingBuffer.contents_length]
      exact filled
    have free := (ring.mem_iff real).mp mem
    obtain ⟨sign, bound, _⟩ := owner_of_owned free
    rw [size] at bound
    -- Every barrier that is held owns one of the other slots.
    have others : (heldBefore sim prog.tasks (performed state) state.bar).card ≤
        ((range limit).erase real.toNat).card := by
      refine card_le_card_of_injOn (fun u => (state.slots.config u).realId.toNat) ?_ ?_
      · intro u held
        obtain ⟨before, alive⟩ := sane.mem_heldBefore.mp held
        have owner := sane.sound.owned.owns u before alive
        obtain ⟨nonneg, small, _⟩ := owner_of_owned owner
        refine mem_erase.mpr ⟨fun same => ?_, mem_range.mpr (size ▸ small)⟩
        have equal : (state.slots.config u).realId = real := by
          simp only at same
          omega
        rw [equal, free, some.injEq] at owner
        omega
      · intro u held w other same
        obtain ⟨before, alive⟩ := sane.mem_heldBefore.mp held
        obtain ⟨otherBefore, otherAlive⟩ := sane.mem_heldBefore.mp other
        by_contra different
        have first := owner_of_owned (sane.sound.owned.owns u before alive)
        have second := owner_of_owned (sane.sound.owned.owns w otherBefore otherAlive)
        refine sane.sound.owned.realId_ne before otherBefore alive otherAlive different ?_
        simp only at same
        omega
    rw [card_erase_of_mem (mem_range.mpr bound), card_range] at others
    omega
  · intro room
    by_contra empty
    have none : state.slots.nextReal.contents = [] := by
      refine List.length_eq_zero_iff.mp ?_
      rw [RingBuffer.contents_length]
      omega
    -- Without a free slot every slot is owned by a barrier that is held.
    have owner : ∀ slot < limit,
        ∃ u ∈ heldBefore sim prog.tasks (performed state) state.bar,
          (state.slots.config u).realId = (slot : Int) := by
      intro slot bound
      have inside : slot < state.slots.toVirtual.length := by
        rw [size]
        exact bound
      have held : state.slots.owner (slot : Int) = some state.slots.toVirtual[slot] := by
        exact List.getElem?_eq_getElem inside
      have taken : state.slots.toVirtual[slot] ≠ -1 := by
        intro free
        rw [free] at held
        have mem := (ring.mem_iff _).mpr held
        rw [none] at mem
        exact List.not_mem_nil mem
      obtain ⟨u, before, _, same, alive⟩ := sane.sound.owned.owned _ _ held taken
      exact ⟨u, sane.mem_heldBefore.mpr ⟨before, alive⟩, same⟩
    have all : (range limit).card ≤
        (heldBefore sim prog.tasks (performed state) state.bar).card := by
      refine card_le_card_of_surjOn (fun u => (state.slots.config u).realId.toNat) ?_
      intro slot mem
      obtain ⟨u, held, same⟩ := owner slot (mem_range.mp mem)
      refine ⟨u, held, ?_⟩
      simp only [same, Int.toNat_natCast]
    rw [card_range] at all
    omega

/-- The next barrier can be mapped exactly when its action finds a slot. -/
theorem Sane.hasBarriersToMap_iff :
    hasBarriersToMap sim state = true ↔
      SlotFree sim prog.tasks (performed state) limit state.bar := by
  unfold SlotFree
  split
  · next dynamic => rw [hasBarriersToMap_dynamic dynamic, sane.ring_filled_iff dynamic]
  · next mode =>
    have static := Bool.eq_false_of_not_eq_true mode
    rw [hasBarriersToMap_static static, sane.static static]
    constructor
    · intro free
      obtain ⟨sign, bound, _⟩ := owner_of_owned free
      refine ⟨sign, sane.sound.size ▸ bound, fun u before same => ?_⟩
      rw [← sane.released_iff before]
      by_contra alive
      have owner := sane.sound.owned.owns u before alive
      rw [sane.static static, same, free, some.injEq] at owner
      omega
    · rintro ⟨sign, bound, released⟩
      rw [← sane.sound.size] at bound
      have held : state.slots.owner (sim.barriers.getD state.bar default).realId =
          some state.slots.toVirtual[(sim.barriers.getD state.bar default).realId.toNat] := by
        rw [owner, if_neg sign.not_gt, List.getElem?_eq_getElem bound]
      rw [held, some.injEq]
      by_contra taken
      obtain ⟨u, before, _, same, alive⟩ := sane.sound.owned.owned _ _ held taken
      rw [sane.static static] at same
      exact alive ((sane.released_iff before).mpr (released u before same))

end

/-- The mode of the claim: fixed barriers, or virtual ones without the search for an id. -/
def Simulator.PlainMode (sim : Simulator) : Prop :=
  sim.isDynamicBarriers = false ∨ sim.samePidTopoDep = false

theorem pickReal_plain (state : State) (plain : sim.PlainMode) :
    ∃ real nextReal, pickReal sim state = (some real, nextReal) := by
  unfold pickReal
  split
  · next dynamic =>
    rcases plain with static | plain
    · rw [dynamic] at static
      cases static
    · rw [plain]
      exact ⟨_, _, rfl⟩
  · exact ⟨_, _, rfl⟩

variable {after : State} {index : Nat}

theorem mapBarrier_sane (sane : Sane prog sim limit state)
    (turn : mapBarrier sim state = .next after) :
    Sane prog sim limit after ∧
      performed after = insert (.map state.bar) (performed state) := by
  obtain ⟨guard, real, ring, picked, _, equal⟩ := mapBarrier_next turn
  have inside : state.bar < sim.barriers.length := sane.sound.length ▸ guard.1
  have actions : performed after = insert (.map state.bar) (performed state) := by
    ext action
    cases action with
    | map v =>
      show v < after.bar ↔ Action.map v = .map state.bar ∨ v < state.bar
      rw [equal, Action.map.injEq]
      exact Nat.lt_succ_iff_lt_or_eq.trans or_comm
    | advance index position =>
      rw [equal]
      exact ⟨.inr, fun mem => mem.resolve_left Action.noConfusion⟩
  have enabled : EnabledIn sim prog.tasks (performed state) limit (.map state.bar) :=
    ⟨inside, fun u before => before, sane.hasBarriersToMap_iff.mp guard.2⟩
  refine ⟨⟨mapBarrier_sound sane.sound (.inl turn), mapBarrier_accounted sane.accounted (.inl turn),
    fun static v => ?_, ?_, ?_⟩, actions⟩
  · rw [pickReal_static static, Prod.mk.injEq, some.injEq] at picked
    rw [equal]
    by_cases same : v = state.bar
    · rw [same, config_bindReal_self guard.1, ← picked.1]
      exact sane.static static state.bar
    · rw [config_bindReal_ne same]
      exact sane.static static v
  · rw [equal]
    exact sane.head_le
  · rw [actions]
    exact .step sane.run enabled

theorem performed_passTask (accounted : Accounted prog.tasks sim state)
    (found : (sim.queue index)[state.head index]? = some user) :
    performed (passTask state index) =
      insert (.advance index (state.head index)) (performed state) := by
  have inside : index < state.heads.length := by
    rw [accounted.heads]
    exact Simulator.index_lt found
  ext action
  cases action with
  | map v => exact ⟨.inr, fun mem => mem.resolve_left Action.noConfusion⟩
  | advance other position =>
    show position < (passTask state index).head other ↔
      Action.advance other position = .advance index (state.head index) ∨
        position < state.head other
    rw [head_passTask inside, Action.advance.injEq]
    split
    · next same =>
      rw [same]
      simp only [true_and]
      exact Nat.lt_succ_iff_lt_or_eq.trans or_comm
    · next different => simp only [different, false_and, false_or]

theorem advanceQueue_sane (agree : sim.ItemsAgree) (parsed : ParsedTasks prog prog.tasks sim)
    (sane : Sane prog sim limit state) (turn : advanceQueue sim index state = .next after) :
    Sane prog sim limit after ∧
      performed after = insert (.advance index (state.head index)) (performed state) := by
  have sound := advanceQueue_sound parsed.wellFormed sane.sound (.inl turn)
  have accounted := advanceQueue_accounted agree parsed sane.accounted (.inl turn)
  obtain ⟨user, found, cases⟩ := advanceQueue_next turn
  have inside : index < state.heads.length := by
    rw [sane.accounted.heads]
    exact Simulator.index_lt found
  have declared := parsed.wellFormed.declared index user (List.mem_of_getElem? found)
  -- Both ways of passing an entry move the same head and leave the physical ids alone.
  have common : after.heads = (passTask state index).heads ∧ after.bar = state.bar ∧
      ∀ v, (after.slots.config v).realId = (state.slots.config v).realId := by
    rcases cases with ⟨_, equal⟩ | ⟨_, slots, success, equal⟩
    · rw [equal]
      exact ⟨rfl, rfl, fun _ => rfl⟩
    · rw [equal]
      exact ⟨rfl, rfl, (applyDep_frame (processSim_success success).2).2⟩
  obtain ⟨heads, bar, ids⟩ := common
  have actions : performed after =
      insert (.advance index (state.head index)) (performed state) := by
    rw [← performed_passTask sane.accounted found]
    ext action
    cases action with
    | map v =>
      show v < after.bar ↔ v < state.bar
      rw [bar]
    | advance other position =>
      show position < after.head other ↔ position < (passTask state index).head other
      rw [State.head, State.head, heads]
  have unused : ¬ sim.UsesBarriers user → ReadyIn sim prog.tasks (performed state) user := by
    intro none
    rw [Simulator.UsesBarriers, not_not] at none
    refine ⟨fun v mem => ?_, fun v mem => ?_⟩
    · rw [none] at mem
      exact absurd mem List.not_mem_nil
    · rw [(List.append_eq_nil_iff.mp none).1] at mem
      exact absurd mem List.not_mem_nil
  have allowed : PassedIn sim (performed state) user.task ∨
      ReadyIn sim prog.tasks (performed state) user := by
    rcases cases with ⟨processed, _⟩ | ⟨_, slots, success, _⟩
    · by_cases uses : sim.UsesBarriers user
      · rw [multiQueueItem_eq sane.accounted] at processed
        cases held : sim.itemOf index (state.head index) with
        | none =>
          rw [held] at processed
          cases processed
        | some item =>
          rw [held] at processed
          exact .inl ((sane.accounted.marked index _ user item found uses held).mp processed)
      · exact .inr (unused uses)
    · obtain ⟨ready, _⟩ := processSim_success success
      unfold isReady at ready
      simp only [Bool.and_eq_true, List.all_eq_true, decide_eq_true_eq] at ready
      have mapped : ∀ v ∈ sim.vdt.waits user.virtualDep ++ sim.vdt.posts user.virtualDep,
          isBarrierMapped sim.isDynamicBarriers state.slots v = true := by
        intro v mem
        rcases List.mem_append.mp mem with waits | posts
        · exact (ready.1 v waits).1
        · exact ready.2 v posts
      refine .inr ⟨fun v mem => ?_, fun v mem => ?_⟩
      · exact sane.sound.owned.lt_of_mapped (sane.sound.length ▸ declared v mem)
          (mapped v mem)
      · exact (sane.produced_iff (declared v (List.mem_append_left _ mem))).mp
          (ready.1 v mem).2
  refine ⟨⟨sound, accounted, fun static v => (ids v).trans (sane.static static v), fun other => ?_,
    ?_⟩, actions⟩
  · rw [State.head, heads, ← State.head, head_passTask inside]
    split
    · next same =>
      rw [same]
      exact (List.getElem?_eq_some_iff.mp found).1
    · exact sane.head_le other
  · rw [actions]
    exact .step sane.run ⟨fun before less => less, user, found, allowed⟩

/-! ### Enabled actions are possible -/

theorem mapBarrier_possible (plain : sim.PlainMode) (sane : Sane prog sim limit state)
    (enabled : EnabledIn sim prog.tasks (performed state) limit (.map v))
    (fresh : .map v ∉ performed state) : ∃ after, mapBarrier sim state = .next after := by
  obtain ⟨inside, before, free⟩ := enabled
  have next : v = state.bar := by
    have late : ¬ v < state.bar := fresh
    have early : ¬ state.bar < v := fun less =>
      lt_irrefl _ (map_mem_performed.mp (before state.bar less))
    omega
  rw [next] at inside free
  have guard : MapGuard sim state :=
    ⟨sane.sound.length.symm ▸ inside, sane.hasBarriersToMap_iff.mpr free⟩
  obtain ⟨real, ring, picked⟩ := pickReal_plain state plain
  obtain ⟨sign, _, _⟩ := owner_of_owned (pickReal_free sane.sound.owned guard picked)
  exact ⟨bindReal state real ring, mapBarrier_of_picked guard picked sign⟩

theorem advanceQueue_possible (agree : sim.ItemsAgree) (parsed : ParsedTasks prog prog.tasks sim)
    (sane : Sane prog sim limit state) {position : Nat}
    (enabled : EnabledIn sim prog.tasks (performed state) limit (.advance index position))
    (fresh : .advance index position ∉ performed state) :
    ∃ after, advanceQueue sim index state = .next after := by
  obtain ⟨before, user, found, allowed⟩ := enabled
  have next : position = state.head index := by
    have late : ¬ position < state.head index := fresh
    have early : ¬ state.head index < position := fun less =>
      lt_irrefl _ (advance_mem_performed.mp (before _ less))
    omega
  rw [next] at found
  cases processed : isProcessed state (multiQueueItem sim state index) with
  | true => exact ⟨_, advanceQueue_of_processed found processed⟩
  | false =>
    have declared := parsed.wellFormed.declared index user (List.mem_of_getElem? found)
    have positive := parsed.wellFormed.positive index user (List.mem_of_getElem? found)
    have ready : isReady sim.isDynamicBarriers state.slots (sim.vdt.waits user.virtualDep)
        (sim.vdt.posts user.virtualDep) = true := by
      by_cases uses : sim.UsesBarriers user
      · have undone := not_done_of_pending agree sane.accounted found uses processed
        obtain ⟨mapped, produced⟩ := allowed.resolve_left undone
        have share : ∀ (v : Nat) (vids : List Nat), v ∈ vids →
            user.count ≤ user.count * (vids.count v : Int) := by
          intro v vids mem
          have once : (1 : Int) ≤ vids.count v := by exact_mod_cast List.count_pos_iff.mpr mem
          exact le_mul_of_one_le_right positive.le once
        unfold isReady
        simp only [Bool.and_eq_true, List.all_eq_true, decide_eq_true_eq]
        refine ⟨fun v mem => ?_, fun v mem => ?_⟩
        · have inside := List.mem_append_left (sim.vdt.posts user.virtualDep) mem
          have enough := (sane.accounted.enough parsed found undone (declared v inside)).1
          refine ⟨sane.sound.owned.mapped_of_lt (mapped v inside) fun gone => ?_,
            (sane.produced_iff (declared v inside)).mpr (produced v mem)⟩
          have spent := gone.2
          have more := share v _ mem
          omega
        · have inside := List.mem_append_right (sim.vdt.waits user.virtualDep) mem
          have enough := (sane.accounted.enough parsed found undone (declared v inside)).2
          refine sane.sound.owned.mapped_of_lt (mapped v inside) fun gone => ?_
          have none := sane.sound.owned.produced v gone
          have more := share v _ mem
          omega
      · rw [Simulator.UsesBarriers, not_not, List.append_eq_nil_iff] at uses
        rw [uses.1, uses.2]
        rfl
    obtain ⟨slots, success⟩ := processSim_of_ready agree parsed sane.accounted found processed ready
    exact ⟨_, advanceQueue_of_success found processed success⟩

/-! ### Runs in any order -/

/-- One step of the machine: the next barrier is mapped, or any queue advances. -/
def Move (sim : Simulator) (state after : State) : Prop :=
  mapBarrier sim state = .next after ∨ ∃ index, advanceQueue sim index state = .next after

/-- The states that steps in any order lead to. -/
def Reaches (sim : Simulator) (limit : Nat) (state : State) : Prop :=
  Relation.ReflTransGen (Move sim) (initialState sim limit) state

def Stuck (sim : Simulator) (state : State) : Prop := ∀ after, ¬ Move sim state after

theorem initialState_sane (parsed : ParsedTasks prog prog.tasks sim) :
    Sane prog sim limit (initialState sim limit) := by
  have zero : ∀ index, (initialState sim limit).head index = 0 := by
    intro index
    simp only [State.head, initialState, List.getD_eq_getElem?_getD, List.getElem?_replicate]
    split <;> rfl
  have none : performed (initialState sim limit) = ∅ := by
    ext action
    cases action with
    | map v => exact ⟨fun mem => absurd mem (Nat.not_lt_zero v), False.elim⟩
    | advance index position =>
      show position < (initialState sim limit).head index ↔ False
      rw [zero]
      exact ⟨Nat.not_lt_zero position, False.elim⟩
  refine ⟨initialState_sound parsed limit, initialState_accounted parsed limit, fun _ _ => rfl,
    fun index => ?_, ?_⟩
  · rw [zero]
    exact Nat.zero_le _
  · rw [none]
    exact .start

theorem Sane.move (agree : sim.ItemsAgree) (parsed : ParsedTasks prog prog.tasks sim)
    (sane : Sane prog sim limit state) {after : State} (move : Move sim state after) :
    Sane prog sim limit after := by
  rcases move with mapped | ⟨index, advanced⟩
  · exact (mapBarrier_sane sane mapped).1
  · exact (advanceQueue_sane agree parsed sane advanced).1

section

variable (agree : sim.ItemsAgree) (parsed : ParsedTasks prog prog.tasks sim)
include agree parsed

theorem Reaches.sane (reaches : Reaches sim limit state) : Sane prog sim limit state := by
  induction reaches with
  | refl => exact initialState_sane parsed
  | tail _ move ih => exact ih.move agree parsed move

/-- A state without a step has performed every enabled action. -/
theorem Sane.complete (plain : sim.PlainMode) (sane : Sane prog sim limit state)
    (stuck : Stuck sim state) : (actionSystem sim prog.tasks limit).Complete (performed state) := by
  intro action enabled
  by_contra fresh
  cases action with
  | map v =>
    obtain ⟨after, turn⟩ := mapBarrier_possible plain sane enabled fresh
    exact stuck after (.inl turn)
  | advance index position =>
    obtain ⟨after, turn⟩ := advanceQueue_possible agree parsed sane enabled fresh
    exact stuck after (.inr ⟨index, turn⟩)

end

theorem isUnfinished_of_subset {other : State} (one : Sane prog sim limit state)
    (two : Sane prog sim limit other) (subset : performed state ⊆ performed other)
    (unfinished : isUnfinished sim other = true) : isUnfinished sim state = true := by
  by_contra finished
  obtain ⟨bars, heads⟩ := isUnfinished_false.mp (Bool.eq_false_of_not_eq_true finished)
  have done : isUnfinished sim other = false := by
    refine isUnfinished_false.mpr ⟨?_, fun index inside => ?_⟩
    · by_contra less
      have mem : Action.map other.bar ∈ performed state := by
        show other.bar < state.bar
        rw [two.sound.length, ← one.sound.length] at less
        omega
      exact lt_irrefl _ (map_mem_performed.mp (subset mem))
    · by_contra less
      have mem : Action.advance index (other.head index) ∈ performed state := by
        show other.head index < state.head index
        have all := heads index inside
        omega
      exact lt_irrefl _ (advance_mem_performed.mp (subset mem))
  rw [done] at unfinished
  cases unfinished

end

/-! ### Polling -/

section

variable {prog : Program} {sim : Simulator} {limit : Nat} {state : State}

/-! ### Sane iterations -/

open Bool Run

theorem Sane.reset (sane : Sane prog sim limit state) :
    Sane prog sim limit { state with progressed := false } :=
  ⟨⟨sane.sound.length, sane.sound.size, sane.sound.owned⟩,
    sane.accounted.congr rfl rfl rfl (fun _ => rfl) fun _ => rfl, sane.static, sane.head_le,
    sane.run⟩

theorem mapBarrier_leave_plain (plain : sim.PlainMode) {after : State}
    (turn : mapBarrier sim state = .leave after) : after = state := by
  rcases mapBarrier_leave turn with ⟨_, equal⟩ | ⟨_, _, none, _⟩
  · exact equal
  · obtain ⟨real, ring, picked⟩ := pickReal_plain state plain
    rw [picked, Prod.mk.injEq] at none
    cases none.1

theorem mapBarriers_sane (plain : sim.PlainMode) :
    Run.Preserves (Sane prog sim limit) (mapBarriers sim) :=
  fun state _ => Turn.loop_preserves _ (fun _ _ sane turn => turn.elim
    (fun next => (mapBarrier_sane sane next).1)
    fun leave => mapBarrier_leave_plain plain leave ▸ sane) _ state _

section

variable (agree : sim.ItemsAgree) (parsed : ParsedTasks prog prog.tasks sim)
include agree parsed

theorem processQueue_sane (index : Nat) :
    Run.Preserves (Sane prog sim limit) fun state => processQueue sim state index :=
  fun state _ => Turn.loop_preserves _ (fun _ _ sane turn => turn.elim
    (fun next => (advanceQueue_sane agree parsed sane next).1)
    fun leave => (advanceQueue_leave leave).1 ▸ sane) _ state _

theorem processQueues_sane : Run.Preserves (Sane prog sim limit) (processQueues sim) :=
  Run.Preserves.foldlM _ fun index _ => processQueue_sane agree parsed index

theorem iterate_sane (plain : sim.PlainMode) :
    Run.Preserves (Sane prog sim limit) (iterate sim ⟨limit, false⟩) :=
  fun _ after sane res => (mapBarriers_sane plain).bind (processQueues_sane agree parsed) _ after
    sane.reset (iterate_ok res).1

end

/-! ### Progress -/

/-- The number of actions behind a state. -/
def weight (sim : Simulator) (state : State) : Nat :=
  state.bar + ∑ index ∈ range sim.queues.length, state.head index

def Simulator.workload (sim : Simulator) : Nat :=
  sim.barriers.length + ∑ index ∈ range sim.queues.length, (sim.queue index).length

theorem Sane.weight_le (sane : Sane prog sim limit state) : weight sim state ≤ sim.workload :=
  Nat.add_le_add (sane.sound.length ▸ sane.sound.owned.bar_le)
    (sum_le_sum fun index _ => sane.head_le index)

variable {after : State}

theorem weight_advanceQueue (accounted : Accounted prog.tasks sim state) {index : Nat}
    (turn : advanceQueue sim index state = .next after) :
    weight sim state < weight sim after ∧ after.progressed = true := by
  obtain ⟨user, found, cases⟩ := advanceQueue_next turn
  have inside : index < state.heads.length := by
    rw [accounted.heads]
    exact Simulator.index_lt found
  have common : after.heads = (passTask state index).heads ∧ after.bar = state.bar ∧
      after.progressed = true := by
    rcases cases with ⟨_, equal⟩ | ⟨_, slots, _, equal⟩
    · rw [equal]
      exact ⟨rfl, rfl, rfl⟩
    · rw [equal]
      exact ⟨rfl, rfl, rfl⟩
  obtain ⟨heads, bar, progress⟩ := common
  have moved : ∀ other, after.head other =
      if other = index then state.head index + 1 else state.head other := by
    intro other
    rw [State.head, heads, ← State.head, head_passTask inside]
  refine ⟨?_, progress⟩
  unfold weight
  rw [bar]
  refine Nat.add_lt_add_left (sum_lt_sum (fun other _ => ?_) ⟨index, ?_, ?_⟩) state.bar
  · rw [moved]
    split
    · next same =>
      rw [same]
      exact Nat.le_succ _
    · exact le_refl _
  · exact mem_range.mpr (accounted.heads ▸ inside)
  · rw [moved, if_pos rfl]
    exact Nat.lt_succ_self _

theorem weight_mapBarrier (turn : mapBarrier sim state = .next after) :
    weight sim state < weight sim after ∧ after.progressed = true := by
  obtain ⟨_, _, _, _, _, equal⟩ := mapBarrier_next turn
  rw [equal]
  exact ⟨Nat.add_lt_add_right (Nat.lt_succ_self _) _, rfl⟩

/-- How far a state is from an earlier one: further when it is marked as progressed. -/
structure Further (prog : Program) (sim : Simulator) (limit earlier : Nat) (state : State) :
    Prop where
  sane : Sane prog sim limit state
  weight_le : earlier ≤ weight sim state
  moved : state.progressed = true → earlier < weight sim state

theorem Further.turn {earlier : Nat} (further : Further prog sim limit earlier state)
    (sane : Sane prog sim limit after) (moved : weight sim state < weight sim after) :
    Further prog sim limit earlier after :=
  ⟨sane, further.weight_le.trans moved.le, fun _ => further.weight_le.trans_lt moved⟩

theorem iterate_weight (agree : sim.ItemsAgree) (parsed : ParsedTasks prog prog.tasks sim)
    (plain : sim.PlainMode) (sane : Sane prog sim limit state)
    (res : iterate sim ⟨limit, false⟩ state = .ok after) : weight sim state < weight sim after := by
  obtain ⟨ran, progress⟩ := iterate_ok res
  have mapping : Run.Preserves (Further prog sim limit (weight sim state)) (mapBarriers sim) :=
    fun state _ => Turn.loop_preserves _ (fun _ _ further turn => turn.elim
      (fun next => further.turn (mapBarrier_sane further.sane next).1 (weight_mapBarrier next).1)
      fun leave => mapBarrier_leave_plain plain leave ▸ further) _ state _
  have processing : Run.Preserves (Further prog sim limit (weight sim state))
      (processQueues sim) :=
    Run.Preserves.foldlM _ fun index _ => fun state _ => Turn.loop_preserves _
      (fun _ _ further turn => turn.elim
        (fun next => further.turn (advanceQueue_sane agree parsed further.sane next).1
          (weight_advanceQueue further.sane.accounted next).1)
        fun leave => (advanceQueue_leave leave).1 ▸ further) _ state _
  have start : Further prog sim limit (weight sim state) { state with progressed := false } :=
    ⟨sane.reset, le_refl _, fun moved => Bool.noConfusion moved⟩
  exact (mapping.bind processing _ after start ran).moved progress

/-! ### Blocked iterations -/

/-- An iteration that made no progress has left every loop at its first turn. -/
theorem stuck_of_idle (plain : sim.PlainMode) {processed : State}
    (ran : (mapBarriers sim state >>= processQueues sim) = .ok processed)
    (idle : processed.progressed = false) : Stuck sim state := by
  have still : ¬ processed.progressed = true := by
    rw [idle]
    exact false_ne_true
  have stays : ∀ index, ∀ before after : State, before.progressed = true →
      (advanceQueue sim index before).LeadsTo after → after.progressed = true := by
    intro index before after moved turn
    rcases turn with next | leave
    · obtain ⟨_, _, ⟨_, equal⟩ | ⟨_, _, _, equal⟩⟩ := advanceQueue_next next
      · rw [equal]
        rfl
      · rw [equal]
        rfl
    · rw [(advanceQueue_leave leave).1]
      exact moved
  have moves : ∀ index, ∀ before after : State, advanceQueue sim index before = .next after →
      after.progressed = true := by
    intro index before after next
    obtain ⟨_, _, ⟨_, equal⟩ | ⟨_, _, _, equal⟩⟩ := advanceQueue_next next
    · rw [equal]
      rfl
    · rw [equal]
      rfl
  obtain ⟨mapped, mapping, processing⟩ := bind_ok ran
  obtain ⟨same, queues⟩ := foldlM_idle (fun state : State => state.progressed = true)
    (fun index state => advanceQueue sim index state = .leave state) _
    (fun index before after => Turn.loop_preserves _ (stays index) _ before after)
    (fun index before after res unmoved _ => by
      have leave := Turn.loop_idle _ (moves index) (stays index) _ before after res unmoved
      have equal := (advanceQueue_leave leave).1
      exact ⟨equal, equal ▸ leave⟩) mapped processed processing still
  rw [same] at still
  have leave := Turn.loop_idle (fun state : State => state.progressed = true)
    (fun _ _ turn => (weight_mapBarrier turn).2)
    (fun before after moved turn => turn.elim (fun next => (weight_mapBarrier next).2)
      fun leave => mapBarrier_leave_plain plain leave ▸ moved) _ state mapped mapping still
  have equal := mapBarrier_leave_plain plain leave
  rw [equal] at leave queues
  rintro after (turn | ⟨index, turn⟩)
  · rw [leave] at turn
    cases turn
  · by_cases inside : index < sim.queues.length
    · rw [queues index (List.mem_range.mpr inside)] at turn
      cases turn
    · obtain ⟨_, found, _⟩ := advanceQueue_next turn
      exact inside (Simulator.index_lt found)

theorem iterate_blocked (agree : sim.ItemsAgree) (parsed : ParsedTasks prog prog.tasks sim)
    (plain : sim.PlainMode) (sane : Sane prog sim limit state) {exited : Exit}
    (res : iterate sim ⟨limit, false⟩ state = .error exited) :
    exited = .blocked ∧ Stuck sim { state with progressed := false } := by
  rw [iterate_eq] at res
  rcases bind_error res with ran | ⟨processed, ran, rest⟩
  · exfalso
    rcases bind_error ran with mapping | ⟨mapped, mapping, processing⟩
    · -- A slot that is picked has a valid index.
      obtain ⟨last, lastSane, turn⟩ := Turn.loop_exit (Sane prog sim limit)
        (fun _ _ sane turn => (mapBarrier_sane sane turn).1) _ _ exited sane.reset mapping
      unfold mapBarrier at turn
      split at turn
      · next guard =>
        split at turn
        · cases turn
        · next real ring picked =>
          obtain ⟨sign, _, _⟩ :=
            Slots.owner_of_owned (pickReal_free lastSane.sound.owned guard picked)
          rw [if_neg sign.not_gt] at turn
          cases turn
      · cases turn
    · obtain ⟨index, _, before, beforeSane, failed⟩ := foldlM_error (Sane prog sim limit) _
        (fun index _ => processQueue_sane agree parsed index) mapped exited
        (mapBarriers_sane plain _ mapped sane.reset mapping) processing
      obtain ⟨last, lastSane, turn⟩ := Turn.loop_exit (Sane prog sim limit)
        (fun _ _ sane turn => (advanceQueue_sane agree parsed sane turn).1) _ before exited
        beforeSane failed
      exact advanceQueue_ne_exit agree parsed lastSane.accounted index exited turn
  · cases progress : processed.progressed with
    | true =>
      rw [progress] at rest
      cases rest
    | false =>
      rw [progress] at rest
      cases rest
      exact ⟨rfl, stuck_of_idle plain ran progress⟩

/-! ### The verdict -/

theorem simulateBarriers_eq {numBarriers : Option Int}
    (sign : 0 ≤ numBarriers.getD sim.availableBarriers)
    (within : numBarriers.getD sim.availableBarriers ≤ sim.availableBarriers) (fuel : Nat) :
    simulateBarriers sim numBarriers false fuel =
      Turn.loop (iteration sim ⟨(numBarriers.getD sim.availableBarriers).toNat, false⟩) fuel
          (initialState sim (numBarriers.getD sim.availableBarriers).toNat) >>= fun final =>
        if isUnfinished sim final then .error .outOfFuel else .ok final := by
  unfold simulateBarriers
  rw [if_neg within.not_gt, if_neg sign.not_gt]
  refine congrArg _ (funext fun final => ?_)
  rfl

theorem move_weight (accounted : Accounted prog.tasks sim state) (move : Move sim state after) :
    weight sim state < weight sim after := by
  rcases move with mapped | ⟨index, advanced⟩
  · exact (weight_mapBarrier mapped).1
  · exact (weight_advanceQueue accounted advanced).1

end

/-- When the items of the tasks on several queues agree with their places, the verdict of the
simulation does not depend on the order: with enough fuel it succeeds, and then no order gets
stuck before everything is done, or it is blocked, and then every order gets stuck before
everything is done. No order goes on forever. -/
theorem verdict_in_any_order (prog : Program) (wlm : Bool) (sim : Simulator)
    (built : prog.simulator wlm = .ok sim) (agree : sim.ItemsAgree) (plain : sim.PlainMode)
    (numBarriers : Option Int) (sign : 0 ≤ numBarriers.getD sim.availableBarriers)
    (within : numBarriers.getD sim.availableBarriers ≤ sim.availableBarriers) (fuel : Nat)
    (enough : sim.workload < fuel) :
    (((∃ final, simulateBarriers sim numBarriers false fuel = .ok final) ∧
        ∀ state, Reaches sim (numBarriers.getD sim.availableBarriers).toNat state →
          Stuck sim state → isUnfinished sim state = false) ∨
      (simulateBarriers sim numBarriers false fuel = .error .blocked ∧
        ∀ state, Reaches sim (numBarriers.getD sim.availableBarriers).toNat state →
          Stuck sim state → isUnfinished sim state = true)) ∧
    ∀ run : Nat → State, run 0 = initialState sim (numBarriers.getD sim.availableBarriers).toNat →
      ¬ ∀ step, Move sim (run step) (run (step + 1)) := by
  have parsed := simulator_parsed built
  rw [simulateBarriers_eq sign within]
  generalize (numBarriers.getD sim.availableBarriers).toNat = limit
  have start : Sane prog sim limit (initialState sim limit) := initialState_sane parsed
  have turns : ∀ state after, Sane prog sim limit state →
      iteration sim ⟨limit, false⟩ state = .next after → Sane prog sim limit after :=
    fun state after sane turn =>
      iterate_sane agree parsed plain state after sane (iteration_next turn).2
  refine ⟨?_, fun run first moves => ?_⟩
  · cases loop : Turn.loop (iteration sim ⟨limit, false⟩) fuel (initialState sim limit) with
    | ok final =>
      left
      have sane : Sane prog sim limit final := Turn.loop_preserves _
        (fun before after sane turn => turn.elim (turns before after sane)
          fun leave => (iteration_leave leave).2 ▸ sane) fuel _ final start loop
      obtain ⟨last, leave⟩ := Turn.loop_ends (Sane prog sim limit) turns
        (fun state => sim.workload - weight sim state)
        (fun before after sane turn => by
          have more := iterate_weight agree parsed plain sane (iteration_next turn).2
          have bound := (turns before after sane turn).weight_le
          omega) fuel _ final start (by omega) loop
      have finished : isUnfinished sim final = false := by
        obtain ⟨done, equal⟩ := iteration_leave leave
        rw [equal]
        exact done
      refine ⟨⟨final, ?_⟩, fun state reaches stuck => ?_⟩
      · show (if isUnfinished sim final then _ else _) = _
        rw [finished]
        rfl
      · have other := reaches.sane agree parsed
        by_contra unfinished
        have back := isUnfinished_of_subset sane other
          (sane.run.subset (other.complete agree parsed plain stuck))
          (Bool.eq_true_of_not_eq_false unfinished)
        rw [finished] at back
        cases back
    | error exited =>
      right
      obtain ⟨last, sane, turn⟩ := Turn.loop_exit (Sane prog sim limit) turns fuel _ exited
        start loop
      obtain ⟨unfinished, res⟩ := iteration_exit turn
      obtain ⟨blocked, stuckLast⟩ := iterate_blocked agree parsed plain sane res
      refine ⟨congrArg Except.error blocked, fun state reaches stuck => ?_⟩
      have other := reaches.sane agree parsed
      have complete := sane.reset.complete agree parsed plain stuckLast
      exact isUnfinished_of_subset other sane (other.run.subset complete) unfinished
  · have reached : ∀ step, Sane prog sim limit (run step) ∧ step ≤ weight sim (run step) := by
      intro step
      induction step with
      | zero => exact ⟨first ▸ start, Nat.zero_le _⟩
      | succ step ih =>
        obtain ⟨sane, bound⟩ := ih
        have more := move_weight sane.accounted (moves step)
        exact ⟨sane.move agree parsed (moves step), by omega⟩
    obtain ⟨sane, bound⟩ := reached (sim.workload + 1)
    have most := sane.weight_le
    omega

/-- The order does not matter for the task on two ports. -/
theorem verdict_in_any_order_two_ports :
    ∃ sim, twoPortProgram.simulator false = .ok sim ∧
      ∀ state, Reaches sim 1 state → Stuck sim state → isUnfinished sim state = false := by
  obtain ⟨sim, built, checked⟩ := Run.exists_ok (twoPortProgram.simulator false)
    (fun sim => decide (sim.ItemsAgree ∧ sim.samePidTopoDep = false ∧
        1 ≤ sim.availableBarriers ∧ sim.workload < 5) &&
      (simulateBarriers sim (some 1) false 5).toOption.any fun _ => true) (by decide)
  rw [Bool.and_eq_true] at checked
  obtain ⟨agree, plain, available, enough⟩ := of_decide_eq_true checked.1
  obtain ⟨final, succeeded, _⟩ := Run.exists_ok _ _ checked.2
  refine ⟨sim, built, ?_⟩
  rcases (verdict_in_any_order twoPortProgram false sim built agree (.inr plain) (some 1)
      Int.one_nonneg available 5 enough).1 with ⟨_, all⟩ | ⟨blocked, _⟩
  · exact all
  · rw [succeeded] at blocked
    cases blocked

def runMoves (sim : Simulator) : List (Option Nat) → State → Option State
  | [], state => some state
  | move :: rest, state =>
    match (match move with
      | none => mapBarrier sim state
      | some index => advanceQueue sim index state) with
    | .next after => runMoves sim rest after
    | _ => none

variable {sim : Simulator} {state : State}

theorem runMoves_reaches (moves : List (Option Nat)) {after : State}
    (ran : runMoves sim moves state = some after) :
    Relation.ReflTransGen (Move sim) state after := by
  induction moves generalizing state with
  | nil =>
    cases ran
    exact .refl
  | cons move rest ih =>
    unfold runMoves at ran
    split at ran
    · next middle turn =>
      refine .head ?_ (ih ran)
      cases move with
      | none => exact .inl turn
      | some index => exact .inr ⟨index, turn⟩
    · cases ran

theorem stuck_of_finished (finished : isUnfinished sim state = false) : Stuck sim state := by
  obtain ⟨bars, heads⟩ := isUnfinished_false.mp finished
  rintro after (mapped | ⟨index, advanced⟩)
  · obtain ⟨guard, _⟩ := mapBarrier_next mapped
    exact absurd guard.1 bars.not_gt
  · obtain ⟨user, found, _⟩ := advanceQueue_next advanced
    have behind := heads index (Simulator.index_lt found)
    rw [List.getElem?_eq_none behind] at found
    cases found

/-- A DMA task on both ports, met after a task on port 1 and before one on port 0 that updates a
barrier. The item of the first is recorded under the places of the other two. -/
def sharedItemProgram : Program where
  dmaPortCount := 2
  independentDmaQueues := 2
  availableBarriers := 1
  barriers := .declared 1
  tasks := [⟨.DMA_NN 1 none none, [], []⟩, ⟨.DMA_NN 0 (some 2) none, [], []⟩,
    ⟨.DMA_NN 0 none none, [], [0]⟩, ⟨.SHAVE_ACT, [0], []⟩]
  declared := by decide

/-- The simulation takes the update for done and is blocked, while another order ends with
everything done. -/
theorem sharedItemProgram_order :
    ∃ sim, sharedItemProgram.simulator false = .ok sim ∧ sim.PlainMode ∧
      simulateBarriers sim none false 10 = .error .blocked ∧
      ∃ state, Reaches sim 1 state ∧ Stuck sim state ∧ isUnfinished sim state = false := by
  obtain ⟨sim, built, checked⟩ := Run.exists_ok (sharedItemProgram.simulator false)
    (fun sim => decide (sim.samePidTopoDep = false) &&
      (match simulateBarriers sim none false 10 with
      | .error exited => decide (exited = .blocked)
      | .ok _ => false) &&
      (runMoves sim [none, some 1, some 1, some 0, some 0, some 3] (initialState sim 1)).any
        fun state => !isUnfinished sim state) (by decide)
  rw [Bool.and_eq_true, Bool.and_eq_true] at checked
  obtain ⟨⟨plain, failed⟩, ran⟩ := checked
  refine ⟨sim, built, .inr (of_decide_eq_true plain), ?_, ?_⟩
  · cases res : simulateBarriers sim none false 10 with
    | error exited =>
      rw [res] at failed
      rw [of_decide_eq_true failed]
    | ok final =>
      rw [res] at failed
      cases failed
  · cases moves : runMoves sim [none, some 1, some 1, some 0, some 0, some 3]
        (initialState sim 1) with
    | none =>
      rw [moves] at ran
      cases ran
    | some state =>
      rw [moves] at ran
      have finished : isUnfinished sim state = false := by simpa using ran
      exact ⟨state, runMoves_reaches _ moves, stuck_of_finished finished, finished⟩

end NpuPlugin.BarrierSimulator
