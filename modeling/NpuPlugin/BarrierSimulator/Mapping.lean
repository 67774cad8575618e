/-
This file proves that every turn of the barrier simulation keeps the owners of the physical
barriers: a mapped barrier owns its slot until its last consumer is done, and in dynamic mode the
ring buffer holds exactly the free slots.
-/

import Mathlib.Data.List.Nodup
import Mathlib.Data.List.Perm.Subperm
import Mathlib.Tactic.Ring
import NpuPlugin.BarrierSimulator.Model

namespace NpuPlugin.BarrierSimulator

open List Option Prod Slots

/-! ### Reading slots -/

namespace Slots

variable (slots : Slots) (isDynamic : Bool) (barriers : List BarrierConfig) (v w : Nat)
  (count real : Int)

theorem config_modify_self (change : BarrierConfig → BarrierConfig) (inside : v < barriers.length) :
    config { slots with barriers := barriers.modify v change } v =
      change (barriers.getD v default) := by
  simp [config, getD_eq_getElem?_getD, inside]

theorem config_modify_ne (change : BarrierConfig → BarrierConfig) (other : v ≠ w) :
    config { slots with barriers := barriers.modify v change } w = barriers.getD w default := by
  simp [config, getD_eq_getElem?_getD, other]

theorem config_modify_field {Value : Type} (field : BarrierConfig → Value) (slots : Slots)
    (barriers : List BarrierConfig) (v w : Nat) (change : BarrierConfig → BarrierConfig)
    (kept : ∀ config, field (change config) = field config) :
    field (config { slots with barriers := barriers.modify v change } w) =
      field (barriers.getD w default) := by
  by_cases same : v = w
  · by_cases inside : v < barriers.length
    · rw [← same, config_modify_self slots barriers v change inside, kept]
    · simp [config, getD_eq_getElem?_getD, same ▸ inside]
  · rw [config_modify_ne slots barriers v w change same]

@[simp] theorem realId_setConsumerCount :
    ((slots.setConsumerCount v count).config w).realId = (slots.config w).realId :=
  config_modify_field BarrierConfig.realId slots slots.barriers v w _ fun _ => rfl

@[simp] theorem producerCount_setConsumerCount :
    ((slots.setConsumerCount v count).config w).producerCount = (slots.config w).producerCount :=
  config_modify_field BarrierConfig.producerCount slots slots.barriers v w _ fun _ => rfl

@[simp] theorem realId_setProducerCount :
    ((slots.setProducerCount v count).config w).realId = (slots.config w).realId :=
  config_modify_field BarrierConfig.realId slots slots.barriers v w _ fun _ => rfl

@[simp] theorem consumerCount_setProducerCount :
    ((slots.setProducerCount v count).config w).consumerCount = (slots.config w).consumerCount :=
  config_modify_field BarrierConfig.consumerCount slots slots.barriers v w _ fun _ => rfl

theorem consumerCount_setConsumerCount (inside : v < slots.barriers.length) :
    ((slots.setConsumerCount v count).config w).consumerCount =
      if w = v then count else (slots.config w).consumerCount := by
  split
  · next same => rw [same, setConsumerCount, config_modify_self slots slots.barriers v _ inside]
  · next other =>
    rw [setConsumerCount, config_modify_ne slots slots.barriers v w _ (Ne.symm other)]
    rfl

theorem producerCount_setProducerCount (inside : v < slots.barriers.length) :
    ((slots.setProducerCount v count).config w).producerCount =
      if w = v then count else (slots.config w).producerCount := by
  split
  · next same => rw [same, setProducerCount, config_modify_self slots slots.barriers v _ inside]
  · next other =>
    rw [setProducerCount, config_modify_ne slots slots.barriers v w _ (Ne.symm other)]
    rfl

@[simp] theorem config_release (w : Nat) :
    (slots.release isDynamic real).config w = slots.config w := rfl

@[simp] theorem length_setConsumerCount :
    (slots.setConsumerCount v count).barriers.length = slots.barriers.length :=
  length_modify _ _ _

@[simp] theorem length_setProducerCount :
    (slots.setProducerCount v count).barriers.length = slots.barriers.length :=
  length_modify _ _ _

@[simp] theorem length_release :
    (slots.release isDynamic real).barriers.length = slots.barriers.length := rfl

@[simp] theorem owner_setConsumerCount :
    (slots.setConsumerCount v count).owner real = slots.owner real := rfl

@[simp] theorem owner_setProducerCount :
    (slots.setProducerCount v count).owner real = slots.owner real := rfl

theorem owner_of_owned {slots : Slots} {real value : Int} (owned : slots.owner real = some value) :
    0 ≤ real ∧ real.toNat < slots.toVirtual.length ∧
      slots.toVirtual[real.toNat]? = some value := by
  unfold owner at owned
  split at owned
  · cases owned
  · next sign => exact ⟨not_lt.mp sign, (List.getElem?_eq_some_iff.mp owned).1, owned⟩

theorem owner_release (released real : Int) (inside : slots.owner released ≠ none) :
    (slots.release isDynamic released).owner real =
      if real = released then some (-1) else slots.owner real := by
  obtain ⟨value, owned⟩ := ne_none_iff_exists'.mp inside
  obtain ⟨sign, bound, _⟩ := owner_of_owned owned
  by_cases negative : real < 0
  · rw [if_neg (by omega), owner, owner, if_pos negative, if_pos negative]
  · rw [owner, owner, if_neg negative, if_neg negative, release]
    by_cases same : real = released
    · rw [if_pos same, same, getElem?_set_self bound]
    · rw [if_neg same, getElem?_set_ne (by omega)]

end Slots

/-! ### The invariant -/

/-- The barrier is mapped and its last consumer is done. A barrier without consumers never
leaves its slot. -/
def Released (hasConsumers : Nat → Prop) (slots : Slots) (v : Nat) : Prop :=
  hasConsumers v ∧ (slots.config v).consumerCount = 0

/-- The ring buffer holds every free slot once. -/
structure FreeRing (slots : Slots) : Prop where
  coherent : slots.nextReal.Coherent
  capacity : slots.nextReal.storage.length = slots.toVirtual.length
  nodup : slots.nextReal.contents.Nodup
  mem_iff : ∀ real, real ∈ slots.nextReal.contents ↔ slots.owner real = some (-1)

/-- Who owns the slots when the barriers before `bar` have been mapped. -/
structure Ownership (hasConsumers : Nat → Prop) (isDynamic : Bool) (bar : Nat)
    (slots : Slots) : Prop where
  bar_le : bar ≤ slots.barriers.length
  owns : ∀ v < bar, ¬ Released hasConsumers slots v →
    slots.owner (slots.config v).realId = some (v : Int)
  owned : ∀ real value, slots.owner real = some value → value ≠ -1 →
    ∃ v < bar, value = v ∧ (slots.config v).realId = real ∧ ¬ Released hasConsumers slots v
  inside : ∀ v < bar, slots.owner (slots.config v).realId ≠ none
  outside : isDynamic = true → ∀ v, bar ≤ v → v < slots.barriers.length →
    (slots.config v).realId = -1
  pending : ∀ v, bar ≤ v → ¬ Released hasConsumers slots v
  produced : ∀ v, Released hasConsumers slots v → (slots.config v).producerCount = 0
  unconsumed : ∀ v, ¬ hasConsumers v → (slots.config v).consumerCount = 0
  free : isDynamic = true → FreeRing slots

section

variable {hasConsumers : Nat → Prop} {isDynamic : Bool} {bar : Nat} {slots : Slots}

section

variable (ownership : Ownership hasConsumers isDynamic bar slots)
include ownership

theorem Ownership.lt_of_mapped {v : Nat} (declared : v < slots.barriers.length)
    (mapped : isBarrierMapped isDynamic slots v = true) : v < bar := by
  unfold isBarrierMapped at mapped
  split at mapped
  · cases mapped
  · next owner owned =>
    rw [Bool.or_eq_true, beq_iff_eq] at mapped
    rcases mapped with dynamic | same
    · by_contra late
      have unset := ownership.outside dynamic v (not_lt.mp late) declared
      rw [unset] at owned
      cases owned
    · rw [same] at owned
      obtain ⟨w, before, equal, _⟩ := ownership.owned _ _ owned (by omega)
      omega

theorem Ownership.mapped_of_lt {v : Nat} (before : v < bar)
    (alive : ¬ Released hasConsumers slots v) : isBarrierMapped isDynamic slots v = true := by
  rw [isBarrierMapped, ownership.owns v before alive]
  simp

theorem Ownership.realId_ne {v w : Nat} (firstBefore : v < bar) (secondBefore : w < bar)
    (first : ¬ Released hasConsumers slots v) (second : ¬ Released hasConsumers slots w)
    (other : v ≠ w) : (slots.config v).realId ≠ (slots.config w).realId := by
  intro same
  have one := ownership.owns v firstBefore first
  rw [same, ownership.owns w secondBefore second, some.injEq] at one
  omega

end

/-- A ring buffer with every free slot has room for a slot that is not free. -/
theorem FreeRing.room (ring : FreeRing slots) {real value : Int}
    (owned : slots.owner real = some value) (taken : value ≠ -1) :
    slots.nextReal.size < slots.nextReal.storage.length := by
  have absent : real ∉ slots.nextReal.contents := by
    rw [ring.mem_iff, owned, some.injEq]
    exact taken
  have distinct : (real :: slots.nextReal.contents).Nodup := nodup_cons.mpr
    ⟨absent, ring.nodup⟩
  have within : ∀ id ∈ real :: slots.nextReal.contents,
      id ∈ (range slots.toVirtual.length).map fun idx : Nat => (idx : Int) := by
    intro id mem
    have held : ∃ held, slots.owner id = some held := by
      rcases mem_cons.mp mem with same | kept
      · exact ⟨value, same ▸ owned⟩
      · exact ⟨-1, (ring.mem_iff id).mp kept⟩
    obtain ⟨held, owns⟩ := held
    obtain ⟨sign, bound, _⟩ := owner_of_owned owns
    exact mem_map.mpr ⟨id.toNat, mem_range.mpr bound, Int.toNat_of_nonneg sign⟩
  have count := (List.Nodup.subperm distinct within).length_le
  rw [length_cons, RingBuffer.contents_length, length_map, length_range] at count
  rw [ring.capacity]
  exact count

/-! ### Consuming and producing -/

variable {count : Int} {v : Nat} {after : Slots}

theorem consumeBarrier_cases (consumed : consumeBarrier isDynamic count slots v = some after) :
    isBarrierMapped isDynamic slots v = true ∧ (slots.config v).producerCount = 0 ∧
      count ≤ (slots.config v).consumerCount ∧
      after =
        if (slots.config v).consumerCount - count = 0 then
          (slots.setConsumerCount v ((slots.config v).consumerCount - count)).release isDynamic
            (slots.config v).realId
        else slots.setConsumerCount v ((slots.config v).consumerCount - count) := by
  unfold consumeBarrier at consumed
  simp only at consumed
  split at consumed
  · next mapped =>
    split at consumed
    · cases consumed
    · next counts =>
      rw [not_or, not_not, not_lt] at counts
      refine ⟨mapped, counts.1, counts.2, ?_⟩
      split at consumed
      · next last =>
        rw [if_pos last]
        exact (some.inj consumed).symm
      · next more =>
        rw [if_neg more]
        exact (some.inj consumed).symm
  · cases consumed

theorem produceBarrier_cases (produced : produceBarrier isDynamic count slots v = some after) :
    isBarrierMapped isDynamic slots v = true ∧ count ≤ (slots.config v).producerCount ∧
      after = slots.setProducerCount v ((slots.config v).producerCount - count) := by
  unfold produceBarrier at produced
  simp only at produced
  split at produced
  · next mapped =>
    split at produced
    · cases produced
    · next counts => exact ⟨mapped, not_lt.mp counts, (some.inj produced).symm⟩
  · cases produced

section

variable (ownership : Ownership hasConsumers isDynamic bar slots)
include ownership

theorem Ownership.of_counts {after : Slots} (length : after.barriers.length = slots.barriers.length)
    (owner : ∀ real, after.owner real = slots.owner real)
    (realId : ∀ w, (after.config w).realId = (slots.config w).realId)
    (released : ∀ w, Released hasConsumers after w ↔ Released hasConsumers slots w)
    (produced : ∀ w, Released hasConsumers slots w → (after.config w).producerCount = 0)
    (unconsumed : ∀ w, ¬ hasConsumers w → (after.config w).consumerCount = 0)
    (free : FreeRing slots → FreeRing after) : Ownership hasConsumers isDynamic bar after := by
  refine ⟨length ▸ ownership.bar_le, fun w before kept => ?_, fun real value owned taken => ?_,
    fun w before => ?_, fun dynamic w late bound => ?_, fun w late => ?_, fun w gone => ?_,
    unconsumed, free ∘ ownership.free⟩
  · rw [released] at kept
    rw [owner, realId]
    exact ownership.owns w before kept
  · rw [owner] at owned
    obtain ⟨w, before, equal, same, kept⟩ := ownership.owned real value owned taken
    exact ⟨w, before, equal, (realId w).trans same, by rwa [released]⟩
  · rw [owner, realId]
    exact ownership.inside w before
  · rw [realId]
    exact ownership.outside dynamic w late (length ▸ bound)
  · rw [released]
    exact ownership.pending w late
  · exact produced w ((released w).mp gone)

theorem Ownership.setConsumerCount (declared : v < slots.barriers.length)
    (consumers : hasConsumers v) (alive : (slots.config v).consumerCount ≠ 0) (more : count ≠ 0) :
    Ownership hasConsumers isDynamic bar (slots.setConsumerCount v count) := by
  refine ownership.of_counts (length_setConsumerCount ..) (by simp) (by simp) (fun w => ?_)
    (fun w gone => by simpa using ownership.produced w gone) (fun w none => ?_)
    fun ⟨coherent, capacity, nodup, members⟩ => ⟨coherent, capacity, nodup, members⟩
  · unfold Released
    rw [consumerCount_setConsumerCount slots v w count declared]
    by_cases same : w = v
    · simp only [same, if_true, more, alive]
    · simp only [same, if_false]
  · rw [consumerCount_setConsumerCount slots v w count declared, if_neg]
    · exact ownership.unconsumed w none
    · exact fun same => none (same ▸ consumers)

theorem Ownership.release (before : v < bar) (consumers : hasConsumers v)
    (alive : (slots.config v).consumerCount ≠ 0) (produced : (slots.config v).producerCount = 0) :
    Ownership hasConsumers isDynamic bar
      ((slots.setConsumerCount v 0).release isDynamic (slots.config v).realId) := by
  have declared : v < slots.barriers.length := before.trans_le ownership.bar_le
  have kept : ¬ Released hasConsumers slots v := fun gone => alive gone.2
  have owner := ownership.owns v before kept
  have released : ∀ w,
      Released hasConsumers
        ((slots.setConsumerCount v 0).release isDynamic (slots.config v).realId) w ↔
      w = v ∨ Released hasConsumers slots w := by
    intro w
    unfold Released
    rw [config_release, consumerCount_setConsumerCount slots v w 0 declared]
    by_cases same : w = v
    · simp only [same, if_true, consumers, true_or, and_self]
    · simp only [same, if_false, false_or]
  have owners : ∀ real,
      ((slots.setConsumerCount v 0).release isDynamic (slots.config v).realId).owner real =
        if real = (slots.config v).realId then some (-1) else slots.owner real := by
    intro real
    rw [owner_release _ _ _ _ (by rw [owner_setConsumerCount, owner]; simp),
      owner_setConsumerCount]
  have others : ∀ w < bar, w ≠ v → ¬ Released hasConsumers slots w →
      (slots.config w).realId ≠ (slots.config v).realId :=
    fun w early other alive => ownership.realId_ne early before alive kept other
  refine ⟨?_, ?_, ?_, ?_, ?_, ?_, ?_, ?_, ?_⟩
  · rw [length_release, length_setConsumerCount]
    exact ownership.bar_le
  · intro w early live
    rw [released, not_or] at live
    rw [owners, config_release, realId_setConsumerCount, if_neg (others w early live.1 live.2)]
    exact ownership.owns w early live.2
  · intro real value held taken
    rw [owners] at held
    split at held
    · rw [some.injEq] at held
      exact absurd held.symm taken
    · next elsewhere =>
      obtain ⟨w, early, equal, same, live⟩ := ownership.owned real value held taken
      refine ⟨w, early, equal, ?_, ?_⟩
      · rw [config_release, realId_setConsumerCount, same]
      · rw [released, not_or]
        refine ⟨fun equal => elsewhere ?_, live⟩
        rw [← same, equal]
  · intro w early
    rw [owners, config_release, realId_setConsumerCount]
    split
    · exact some_ne_none _
    · exact ownership.inside w early
  · intro dynamic w late bound
    rw [length_release, length_setConsumerCount] at bound
    rw [config_release, realId_setConsumerCount]
    exact ownership.outside dynamic w late bound
  · intro w late
    rw [released, not_or]
    exact ⟨by omega, ownership.pending w late⟩
  · intro w gone
    rw [released] at gone
    rw [config_release, producerCount_setConsumerCount]
    rcases gone with same | earlier
    · rw [same]
      exact produced
    · exact ownership.produced w earlier
  · intro w none
    rw [config_release, consumerCount_setConsumerCount slots v w 0 declared]
    by_cases same : w = v
    · exact absurd (same ▸ consumers) none
    · rw [if_neg same]
      exact ownership.unconsumed w none
  · intro dynamic
    have ring := ownership.free dynamic
    have room := ring.room owner (by omega)
    have pushed : ((slots.setConsumerCount v 0).release isDynamic
        (slots.config v).realId).nextReal = slots.nextReal.push (slots.config v).realId := by
      rw [dynamic]
      rfl
    have absent : (slots.config v).realId ∉ slots.nextReal.contents := by
      rw [ring.mem_iff, owner, some.injEq]
      omega
    refine ⟨?_, ?_, ?_, ?_⟩
    · rw [pushed]
      exact ring.coherent.push _ room
    · rw [pushed, RingBuffer.storage_length_push, ring.capacity]
      exact (length_set ..).symm
    · rw [pushed, ring.coherent.contents_push _ room]
      exact List.Nodup.append ring.nodup (nodup_singleton _) (by simpa using absent)
    · intro real
      rw [pushed, ring.coherent.contents_push _ room, owners, mem_append, ring.mem_iff,
        mem_singleton]
      by_cases same : real = (slots.config v).realId
      · simp only [same, or_true, if_true]
      · simp only [same, or_false, if_false]

theorem Ownership.consume (pos : 0 < count) (declared : v < slots.barriers.length)
    (consumed : consumeBarrier isDynamic count slots v = some after) :
    Ownership hasConsumers isDynamic bar after := by
  obtain ⟨mapped, produced, enough, equal⟩ := consumeBarrier_cases consumed
  have before := ownership.lt_of_mapped declared mapped
  have alive : (slots.config v).consumerCount ≠ 0 := by omega
  have consumers : hasConsumers v := by
    by_contra none
    exact alive (ownership.unconsumed v none)
  rw [equal]
  split
  · next last =>
    rw [last]
    exact ownership.release before consumers alive produced
  · next more => exact ownership.setConsumerCount declared consumers alive more

theorem Ownership.produce (pos : 0 < count) (declared : v < slots.barriers.length)
    (produced : produceBarrier isDynamic count slots v = some after) :
    Ownership hasConsumers isDynamic bar after := by
  obtain ⟨_, enough, equal⟩ := produceBarrier_cases produced
  rw [equal]
  refine ownership.of_counts (length_setProducerCount ..) (by simp) (by simp)
    (fun w => by rw [Released, Released, consumerCount_setProducerCount]) (fun w gone => ?_)
    (fun w none => by simpa using ownership.unconsumed w none)
    fun ⟨coherent, capacity, nodup, members⟩ => ⟨coherent, capacity, nodup, members⟩
  have none := ownership.produced w gone
  rw [producerCount_setProducerCount slots v w _ declared]
  by_cases same : w = v
  · rw [same] at none
    omega
  · rw [if_neg same]
    exact none

end

end

/-! ### Picking a physical id -/

/-- The search goes past the id: its last user is not one the barrier depends on. -/
def Rejected (control : List Bool) (prevVidOfPhysBar : List Int) (real : Int) : Prop :=
  0 ≤ prevVidOfPhysBar.getD real.toNat (-1) ∧
    control.getD (prevVidOfPhysBar.getD real.toNat (-1)).toNat false = false

variable {control : List Bool} {prevVidOfPhysBar : List Int} {nextReal after : RingBuffer Int}
  {real : Int} (fuel : Nat)

theorem pickPid_succ_rejected (rejected : Rejected control prevVidOfPhysBar nextReal.front)
    (fuel : Nat) :
    pickPid control prevVidOfPhysBar (fuel + 1) nextReal =
      pickPid control prevVidOfPhysBar fuel (nextReal.pop.push nextReal.front) := by
  exact if_pos rejected

theorem pickPid_succ_accepted (accepted : ¬ Rejected control prevVidOfPhysBar nextReal.front)
    (fuel : Nat) :
    pickPid control prevVidOfPhysBar (fuel + 1) nextReal =
      (some nextReal.front, nextReal.pop) := by
  exact if_neg accepted

/-- A search that fails has rejected every id it looked at, and the ring buffer holds the same
ids after it. -/
theorem pickPid_none (coherent : nextReal.Coherent) (bound : fuel ≤ nextReal.size)
    (picked : pickPid control prevVidOfPhysBar fuel nextReal = (none, after)) :
    after.Coherent ∧ after.storage.length = nextReal.storage.length ∧
      after.contents.Perm nextReal.contents ∧
      ∀ real ∈ nextReal.contents.take fuel, Rejected control prevVidOfPhysBar real := by
  induction fuel generalizing nextReal with
  | zero =>
    rw [pickPid, Prod.mk.injEq] at picked
    rw [← picked.2]
    exact ⟨coherent, rfl, List.Perm.refl _, by simp⟩
  | succ fuel ih =>
    have filled : 0 < nextReal.size := by omega
    have contents := coherent.contents_cons filled
    by_cases rejected : Rejected control prevVidOfPhysBar nextReal.front
    · rw [pickPid_succ_rejected rejected] at picked
      obtain ⟨kept, size, rotated⟩ := coherent.rotate filled
      obtain ⟨final, capacity, perm, all⟩ := ih kept (by omega) picked
      refine ⟨final, ?_, ?_, ?_⟩
      · rw [capacity, RingBuffer.storage_length_push, RingBuffer.storage_length_pop]
      · rw [contents]
        rw [rotated] at perm
        exact perm.trans perm_append_comm
      · intro real mem
        rw [contents, take_succ_cons, mem_cons] at mem
        rcases mem with first | later
        · rw [first]
          exact rejected
        · refine all real ?_
          have length : nextReal.pop.contents.length = nextReal.size - 1 :=
            RingBuffer.contents_length _
          rw [rotated, take_append_of_le_length (by omega)]
          exact later
    · rw [pickPid_succ_accepted rejected] at picked
      cases picked

theorem pickPid_accepted
    (picked : pickPid control prevVidOfPhysBar fuel nextReal = (some real, after)) :
    ¬ Rejected control prevVidOfPhysBar real := by
  induction fuel generalizing nextReal with
  | zero => cases picked
  | succ fuel ih =>
    by_cases rejected : Rejected control prevVidOfPhysBar nextReal.front
    · rw [pickPid_succ_rejected rejected] at picked
      exact ih picked
    · rw [pickPid_succ_accepted rejected, Prod.mk.injEq, some.injEq] at picked
      rw [← picked.1]
      exact rejected

theorem pickPid_some (coherent : nextReal.Coherent) (bound : fuel ≤ nextReal.size)
    (picked : pickPid control prevVidOfPhysBar fuel nextReal = (some real, after)) :
    after.Coherent ∧ after.storage.length = nextReal.storage.length ∧
      (real :: after.contents).Perm nextReal.contents := by
  induction fuel generalizing nextReal with
  | zero => cases picked
  | succ fuel ih =>
    have filled : 0 < nextReal.size := by omega
    have contents := coherent.contents_cons filled
    by_cases rejected : Rejected control prevVidOfPhysBar nextReal.front
    · rw [pickPid_succ_rejected rejected] at picked
      obtain ⟨kept, size, rotated⟩ := coherent.rotate filled
      obtain ⟨final, capacity, perm⟩ := ih kept (by omega) picked
      refine ⟨final, ?_, ?_⟩
      · rw [capacity, RingBuffer.storage_length_push, RingBuffer.storage_length_pop]
      · rw [contents]
        rw [rotated] at perm
        exact perm.trans perm_append_comm
    · rw [pickPid_succ_accepted rejected, Prod.mk.injEq, some.injEq] at picked
      rw [← picked.1, ← picked.2, contents]
      exact ⟨coherent.pop filled, rfl, List.Perm.refl _⟩

theorem FreeRing.perm {slots : Slots} (ring : FreeRing slots) {after : RingBuffer Int}
    (coherent : after.Coherent) (capacity : after.storage.length = slots.nextReal.storage.length)
    (perm : after.contents.Perm slots.nextReal.contents) :
    FreeRing { slots with nextReal := after } := by
  refine ⟨coherent, capacity.trans ring.capacity, (perm.nodup_iff).mpr ring.nodup, ?_⟩
  intro real
  exact perm.mem_iff.trans (ring.mem_iff real)

theorem Ownership.perm {hasConsumers : Nat → Prop} {isDynamic : Bool} {bar : Nat} {slots : Slots}
    (ownership : Ownership hasConsumers isDynamic bar slots)
    (ring : isDynamic = true → FreeRing { slots with nextReal := after }) :
    Ownership hasConsumers isDynamic bar { slots with nextReal := after } :=
  ⟨ownership.bar_le, ownership.owns, ownership.owned, ownership.inside, ownership.outside,
    ownership.pending, ownership.produced, ownership.unconsumed, ring⟩

/-! ### Mapping a barrier -/

/-- The barrier has consumers in the program. -/
def Simulator.HasConsumers (sim : Simulator) (v : Nat) : Prop :=
  (sim.barriers.getD v default).consumerCount ≠ 0

/-- Who owns the slots in a state of the simulation. -/
def State.Owned (sim : Simulator) (state : State) : Prop :=
  Ownership sim.HasConsumers sim.isDynamicBarriers state.bar state.slots

/-- The turn of the mapping loop is possible. -/
def MapGuard (sim : Simulator) (state : State) : Prop :=
  state.bar < state.slots.barriers.length ∧ hasBarriersToMap sim state = true

variable {sim : Simulator} {state : State}

theorem mapBarrier_next {after : State} (turn : mapBarrier sim state = .next after) :
    MapGuard sim state ∧ ∃ real nextReal, pickReal sim state = (some real, nextReal) ∧
      0 ≤ real ∧ after = bindReal state real nextReal := by
  unfold mapBarrier at turn
  split at turn
  · next guard =>
    split at turn
    · cases turn
    · next real nextReal picked =>
      split at turn
      · cases turn
      · next sign => exact ⟨guard, real, nextReal, picked, not_lt.mp sign,
          (Turn.next.inj turn).symm⟩
  · cases turn

theorem mapBarrier_leave {after : State} (turn : mapBarrier sim state = .leave after) :
    (¬ MapGuard sim state ∧ after = state) ∨
      (MapGuard sim state ∧ ∃ nextReal, pickReal sim state = (none, nextReal) ∧
        after = { state with slots := { state.slots with nextReal := nextReal } }) := by
  unfold mapBarrier at turn
  split at turn
  · next guard =>
    split at turn
    · next nextReal picked => exact .inr ⟨guard, nextReal, picked, (Turn.leave.inj turn).symm⟩
    · split at turn
      · cases turn
      · cases turn
  · next guard => exact .inl ⟨guard, (Turn.leave.inj turn).symm⟩

theorem mapBarrier_of_not_guard (blocked : ¬ MapGuard sim state) :
    mapBarrier sim state = .leave state :=
  if_neg blocked

theorem mapBarrier_of_picked (guard : MapGuard sim state)
    (picked : pickReal sim state = (some real, nextReal)) (sign : 0 ≤ real) :
    mapBarrier sim state = .next (bindReal state real nextReal) := by
  unfold mapBarrier
  rw [if_pos (show _ ∧ _ from guard), picked]
  exact if_neg sign.not_gt

theorem hasBarriersToMap_dynamic (dynamic : sim.isDynamicBarriers = true) :
    hasBarriersToMap sim state = true ↔ 0 < state.slots.nextReal.size := by
  rw [hasBarriersToMap, if_pos dynamic, RingBuffer.empty, Bool.not_eq_true', beq_eq_false_iff_ne]
  omega

theorem hasBarriersToMap_static (static : sim.isDynamicBarriers = false) :
    hasBarriersToMap sim state = true ↔
      state.slots.owner (state.slots.config state.bar).realId = some (-1) := by
  rw [hasBarriersToMap, static, if_neg Bool.false_ne_true, beq_iff_eq]

/-- The ring buffer after a pick: the ids that are left. -/
structure Picked (slots : Slots) (real : Int) (after : RingBuffer Int) : Prop where
  coherent : after.Coherent
  capacity : after.storage.length = slots.nextReal.storage.length
  perm : (real :: after.contents).Perm slots.nextReal.contents

theorem pickReal_dynamic (dynamic : sim.isDynamicBarriers = true)
    (coherent : state.slots.nextReal.Coherent) (guard : MapGuard sim state)
    (picked : pickReal sim state = (some real, nextReal)) : Picked state.slots real nextReal := by
  have filled := (hasBarriersToMap_dynamic dynamic).mp guard.2
  rw [pickReal, if_pos dynamic] at picked
  split at picked
  · obtain ⟨kept, capacity, perm⟩ := pickPid_some _ coherent le_rfl picked
    exact ⟨kept, capacity, perm⟩
  · rw [Prod.mk.injEq, some.injEq] at picked
    rw [← picked.1, ← picked.2]
    refine ⟨coherent.pop filled, rfl, ?_⟩
    rw [coherent.contents_cons filled]

theorem pickReal_static (static : sim.isDynamicBarriers = false) :
    pickReal sim state =
      (some (state.slots.config state.bar).realId, state.slots.nextReal) := by
  rw [pickReal, static, if_neg Bool.false_ne_true]

theorem pickReal_free (owned : state.Owned sim) (guard : MapGuard sim state)
    (picked : pickReal sim state = (some real, nextReal)) : state.slots.owner real = some (-1) := by
  by_cases dynamic : sim.isDynamicBarriers = true
  · have ring := owned.free dynamic
    have taken := pickReal_dynamic dynamic ring.coherent guard picked
    exact (ring.mem_iff real).mp (taken.perm.mem_iff.mp mem_cons_self)
  · have static := Bool.eq_false_of_not_eq_true dynamic
    rw [pickReal_static static, Prod.mk.injEq, some.injEq] at picked
    rw [← picked.1]
    exact (hasBarriersToMap_static static).mp guard.2

section

variable {sim : Simulator} {state : State} {real : Int} {nextReal : RingBuffer Int}

theorem config_bindReal_self (inside : state.bar < state.slots.barriers.length) :
    (bindReal state real nextReal).slots.config state.bar =
      { state.slots.config state.bar with realId := real } :=
  Slots.config_modify_self ⟨[], _, _⟩ state.slots.barriers state.bar _ inside

theorem config_bindReal_ne {v : Nat} (other : v ≠ state.bar) :
    (bindReal state real nextReal).slots.config v = state.slots.config v :=
  Slots.config_modify_ne ⟨[], _, _⟩ state.slots.barriers state.bar v _ other.symm

@[simp] theorem consumerCount_bindReal (v : Nat) :
    ((bindReal state real nextReal).slots.config v).consumerCount =
      (state.slots.config v).consumerCount :=
  Slots.config_modify_field BarrierConfig.consumerCount ⟨[], _, _⟩ state.slots.barriers
    state.bar v _ fun _ => rfl

@[simp] theorem producerCount_bindReal (v : Nat) :
    ((bindReal state real nextReal).slots.config v).producerCount =
      (state.slots.config v).producerCount :=
  Slots.config_modify_field BarrierConfig.producerCount ⟨[], _, _⟩ state.slots.barriers
    state.bar v _ fun _ => rfl

@[simp] theorem length_bindReal :
    (bindReal state real nextReal).slots.barriers.length = state.slots.barriers.length :=
  length_modify _ _ _

theorem owner_bindReal (free : state.slots.owner real = some (-1)) (other : Int) :
    (bindReal state real nextReal).slots.owner other =
      if other = real then some (state.bar : Int) else state.slots.owner other := by
  obtain ⟨sign, bound, _⟩ := Slots.owner_of_owned free
  by_cases negative : other < 0
  · rw [if_neg (by omega), Slots.owner, Slots.owner, if_pos negative, if_pos negative]
  · rw [Slots.owner, Slots.owner, if_neg negative, if_neg negative, bindReal]
    by_cases same : other = real
    · rw [if_pos same, same, getElem?_set_self bound]
    · rw [if_neg same, getElem?_set_ne (by omega)]

/-- A barrier that enters a free slot owns it. -/
theorem State.Owned.bindReal (owned : state.Owned sim)
    (inside : state.bar < state.slots.barriers.length) (free : state.slots.owner real = some (-1))
    (taken : sim.isDynamicBarriers = true → Picked state.slots real nextReal) :
    (bindReal state real nextReal).Owned sim := by
  have released : ∀ v, Released sim.HasConsumers
    (BarrierSimulator.bindReal state real nextReal).slots v ↔
      Released sim.HasConsumers state.slots v := by
    intro v
    rw [Released, Released, consumerCount_bindReal]
  have apart : ∀ v < state.bar, ¬ Released sim.HasConsumers state.slots v →
      (state.slots.config v).realId ≠ real := by
    intro v before alive same
    have owner := owned.owns v before alive
    rw [same, free, some.injEq] at owner
    omega
  refine ⟨?_, ?_, ?_, ?_, ?_, ?_, ?_, ?_, ?_⟩
  · rw [length_bindReal]
    exact inside
  · intro v before alive
    rw [released] at alive
    by_cases last : v = state.bar
    · rw [last, config_bindReal_self inside, owner_bindReal free, if_pos rfl]
    · have early : v < state.bar := lt_of_le_of_ne (Nat.lt_succ_iff.mp before) last
      rw [config_bindReal_ne last, owner_bindReal free, if_neg (apart v early alive)]
      exact owned.owns v early alive
  · intro other value held taken
    rw [owner_bindReal free] at held
    split at held
    · next same =>
      rw [some.injEq] at held
      refine ⟨state.bar, Nat.lt_succ_self _, held.symm, ?_, ?_⟩
      · rw [config_bindReal_self inside, same]
      · rw [released]
        exact owned.pending state.bar le_rfl
    · obtain ⟨v, before, equal, same, alive⟩ := owned.owned other value held taken
      refine ⟨v, Nat.lt_succ_of_lt before, equal, ?_, by rwa [released]⟩
      rw [config_bindReal_ne (by omega), same]
  · intro v before
    by_cases last : v = state.bar
    · rw [last, config_bindReal_self inside, owner_bindReal free, if_pos rfl]
      exact some_ne_none _
    · have early : v < state.bar := lt_of_le_of_ne (Nat.lt_succ_iff.mp before) last
      rw [config_bindReal_ne last, owner_bindReal free]
      split
      · exact some_ne_none _
      · exact owned.inside v early
  · intro dynamic v late bound
    rw [length_bindReal] at bound
    have later : state.bar + 1 ≤ v := late
    rw [config_bindReal_ne (by omega)]
    exact owned.outside dynamic v (by omega) bound
  · intro v late
    have later : state.bar + 1 ≤ v := late
    rw [released]
    exact owned.pending v (by omega)
  · intro v gone
    rw [released] at gone
    rw [producerCount_bindReal]
    exact owned.produced v gone
  · intro v none
    rw [consumerCount_bindReal]
    exact owned.unconsumed v none
  · intro dynamic
    have ring := owned.free dynamic
    have picked := taken dynamic
    have distinct : (real :: nextReal.contents).Nodup := picked.perm.nodup_iff.mpr ring.nodup
    rw [nodup_cons] at distinct
    refine ⟨picked.coherent, ?_, distinct.2, ?_⟩
    · exact (picked.capacity.trans ring.capacity).trans (length_set ..).symm
    · intro other
      rw [owner_bindReal free]
      have members := picked.perm.mem_iff (a := other)
      rw [mem_cons, ring.mem_iff] at members
      show other ∈ nextReal.contents ↔ _
      by_cases same : other = real
      · rw [if_pos same, same, some.injEq]
        exact ⟨fun mem => absurd mem distinct.1, fun equal => by omega⟩
      · rw [if_neg same, ← members]
        simp only [same, false_or]

theorem mapBarrier_owned {after : State} (owned : state.Owned sim)
    (turn : (mapBarrier sim state).LeadsTo after) : after.Owned sim := by
  rcases turn with next | leave
  · obtain ⟨guard, picked, ring, found, _, equal⟩ := mapBarrier_next next
    rw [equal]
    exact owned.bindReal guard.1 (pickReal_free owned guard found) fun dynamic =>
      pickReal_dynamic dynamic (owned.free dynamic).coherent guard found
  · rcases mapBarrier_leave leave with ⟨_, equal⟩ | ⟨-, ring, found, equal⟩
    · rw [equal]
      exact owned
    · rw [equal]
      refine Ownership.perm owned fun dynamic => ?_
      have free := owned.free dynamic
      rw [pickReal, if_pos dynamic] at found
      split at found
      · obtain ⟨coherent, capacity, perm, _⟩ := pickPid_none _ free.coherent le_rfl found
        exact free.perm coherent capacity perm
      · cases found

end

/-! ### Processing a task -/

/-- Every task in a queue uses declared barriers and counts for something. -/
structure Simulator.WellFormed (sim : Simulator) : Prop where
  positive : ∀ index, ∀ user ∈ sim.queue index, 0 < user.count
  declared : ∀ index, ∀ user ∈ sim.queue index,
    ∀ v ∈ sim.vdt.waits user.virtualDep ++ sim.vdt.posts user.virtualDep,
      v < sim.barriers.length

section

variable {hasConsumers : Nat → Prop} {isDynamic : Bool} {bar : Nat} {count : Int} {v : Nat}
  {slots : Slots} {waits posts : List Nat}

theorem length_consumeBarrier {after : Slots}
    (consumed : consumeBarrier isDynamic count slots v = some after) :
    after.barriers.length = slots.barriers.length := by
  obtain ⟨_, _, _, equal⟩ := consumeBarrier_cases consumed
  rw [equal]
  split <;> simp

theorem length_produceBarrier {after : Slots}
    (produced : produceBarrier isDynamic count slots v = some after) :
    after.barriers.length = slots.barriers.length := by
  obtain ⟨_, _, equal⟩ := produceBarrier_cases produced
  rw [equal, Slots.length_setProducerCount]

variable {change : Slots → Nat → Option Slots}

theorem foldlM_slots (Holds : Slots → Prop) (vids : List Nat)
    (step : ∀ v ∈ vids, ∀ slots after, Holds slots → change slots v = some after → Holds after)
    {after : Slots} (holds : Holds slots) (changed : vids.foldlM change slots = some after) :
    Holds after := by
  induction vids generalizing slots with
  | nil =>
    cases changed
    exact holds
  | cons v rest ih =>
    rw [foldlM_cons, bind_eq_bind, bind_eq_some_iff] at changed
    obtain ⟨middle, first, later⟩ := changed
    exact ih (forall_mem_cons.mp step).2
      (step v mem_cons_self slots middle holds first) later

theorem consumeBarrier_realId {after : Slots}
    (consumed : consumeBarrier isDynamic count slots v = some after) (w : Nat) :
    (after.config w).realId = (slots.config w).realId := by
  obtain ⟨_, _, _, equal⟩ := consumeBarrier_cases consumed
  rw [equal]
  split <;> simp

theorem produceBarrier_realId {after : Slots}
    (produced : produceBarrier isDynamic count slots v = some after) (w : Nat) :
    (after.config w).realId = (slots.config w).realId := by
  obtain ⟨_, _, equal⟩ := produceBarrier_cases produced
  rw [equal, Slots.realId_setProducerCount]

theorem consumeBarrier_consumerCount {after : Slots} (inside : v < slots.barriers.length)
    (consumed : consumeBarrier isDynamic count slots v = some after) (w : Nat) :
    (after.config w).consumerCount =
      (slots.config w).consumerCount - if w = v then count else 0 := by
  obtain ⟨_, _, _, equal⟩ := consumeBarrier_cases consumed
  have counts : (after.config w).consumerCount =
      if w = v then (slots.config v).consumerCount - count
      else (slots.config w).consumerCount := by
    rw [equal]
    split
    · rw [Slots.config_release, Slots.consumerCount_setConsumerCount slots v w _ inside]
    · rw [Slots.consumerCount_setConsumerCount slots v w _ inside]
  rw [counts]
  by_cases same : w = v
  · rw [if_pos same, if_pos same, same]
  · rw [if_neg same, if_neg same, sub_zero]

theorem consumeBarrier_producerCount {after : Slots}
    (consumed : consumeBarrier isDynamic count slots v = some after) (w : Nat) :
    (after.config w).producerCount = (slots.config w).producerCount := by
  obtain ⟨_, _, _, equal⟩ := consumeBarrier_cases consumed
  rw [equal]
  split <;> simp

theorem produceBarrier_producerCount {after : Slots} (inside : v < slots.barriers.length)
    (produced : produceBarrier isDynamic count slots v = some after) (w : Nat) :
    (after.config w).producerCount =
      (slots.config w).producerCount - if w = v then count else 0 := by
  obtain ⟨_, _, equal⟩ := produceBarrier_cases produced
  rw [equal, Slots.producerCount_setProducerCount slots v w _ inside]
  by_cases same : w = v
  · rw [if_pos same, if_pos same, same]
  · rw [if_neg same, if_neg same, sub_zero]

theorem produceBarrier_consumerCount {after : Slots}
    (produced : produceBarrier isDynamic count slots v = some after) (w : Nat) :
    (after.config w).consumerCount = (slots.config w).consumerCount := by
  obtain ⟨_, _, equal⟩ := produceBarrier_cases produced
  rw [equal, Slots.consumerCount_setProducerCount]

theorem foldlM_counts (taken kept : BarrierConfig → Int)
    (step : ∀ {slots v after}, v < slots.barriers.length → change slots v = some after →
      after.barriers.length = slots.barriers.length ∧ count ≤ taken (slots.config v) ∧
      ∀ w, taken (after.config w) = taken (slots.config w) - (if w = v then count else 0) ∧
        kept (after.config w) = kept (slots.config w)) (positive : 0 < count) (vids : List Nat)
    {after : Slots} (declared : ∀ v ∈ vids, v < slots.barriers.length)
    (changed : vids.foldlM change slots = some after) (w : Nat) :
    taken (after.config w) = taken (slots.config w) - count * vids.count w ∧
      kept (after.config w) = kept (slots.config w) ∧
      (w ∈ vids → count ≤ taken (slots.config w)) := by
  induction vids generalizing slots with
  | nil =>
    cases changed
    simp
  | cons v rest ih =>
    rw [foldlM_cons, bind_eq_bind, bind_eq_some_iff] at changed
    obtain ⟨middle, first, later⟩ := changed
    obtain ⟨length, sufficient, counts⟩ := step (declared v mem_cons_self) first
    obtain ⟨left, same, enough⟩ := ih
      (fun other mem => by rw [length]; exact declared other (mem_cons_of_mem _ mem))
      later
    refine ⟨?_, same.trans (counts w).2, fun mem => ?_⟩
    · rw [left, (counts w).1]
      by_cases same : w = v
      · rw [if_pos same, same, count_cons_self]
        push_cast
        ring
      · rw [if_neg same, count_cons_of_ne (Ne.symm same), sub_zero]
    · rcases mem_cons.mp mem with same | other
      · rw [same]
        exact sufficient
      · have more := enough other
        rw [(counts w).1] at more
        split at more <;> omega

section

variable {after : Slots} (positive : 0 < count) (vids : List Nat)
  (declared : ∀ v ∈ vids, v < slots.barriers.length)
include positive vids declared

theorem consumeAll_counts
    (consumed : vids.foldlM (consumeBarrier isDynamic count) slots = some after) (w : Nat) :
    (after.config w).consumerCount = (slots.config w).consumerCount - count * vids.count w ∧
      (after.config w).producerCount = (slots.config w).producerCount ∧
      (w ∈ vids → count ≤ (slots.config w).consumerCount) :=
  foldlM_counts BarrierConfig.consumerCount BarrierConfig.producerCount
    (fun inside first => ⟨length_consumeBarrier first, (consumeBarrier_cases first).2.2.1,
      fun w => ⟨consumeBarrier_consumerCount inside first w,
        consumeBarrier_producerCount first w⟩⟩) positive vids declared consumed w

theorem produceAll_counts
    (produced : vids.foldlM (produceBarrier isDynamic count) slots = some after) (w : Nat) :
    (after.config w).producerCount = (slots.config w).producerCount - count * vids.count w ∧
      (after.config w).consumerCount = (slots.config w).consumerCount ∧
      (w ∈ vids → count ≤ (slots.config w).producerCount) :=
  foldlM_counts BarrierConfig.producerCount BarrierConfig.consumerCount
    (fun inside first => ⟨length_produceBarrier first, (produceBarrier_cases first).2.1,
      fun w => ⟨produceBarrier_producerCount inside first w,
        produceBarrier_consumerCount first w⟩⟩) positive vids declared produced w

end

section

variable {after : Slots} (applied : applyDep isDynamic count waits posts slots = some after)
include applied

theorem applyDep_cases :
    ∃ consumed, waits.foldlM (consumeBarrier isDynamic count) slots = some consumed ∧
      posts.foldlM (produceBarrier isDynamic count) consumed = some after := by
  rw [applyDep, bind_eq_bind, bind_eq_some_iff] at applied
  exact applied

theorem applyDep_frame :
    after.barriers.length = slots.barriers.length ∧
      ∀ w, (after.config w).realId = (slots.config w).realId := by
  obtain ⟨consumed, first, second⟩ := applyDep_cases applied
  have middle := foldlM_slots
    (fun other => other.barriers.length = slots.barriers.length ∧
      ∀ w, (other.config w).realId = (slots.config w).realId) waits
    (fun v _ before later kept changed =>
      ⟨(length_consumeBarrier changed).trans kept.1,
        fun w => (consumeBarrier_realId changed w).trans (kept.2 w)⟩) ⟨rfl, fun _ => rfl⟩ first
  exact foldlM_slots
    (fun other => other.barriers.length = slots.barriers.length ∧
      ∀ w, (other.config w).realId = (slots.config w).realId) posts
    (fun v _ before later kept changed =>
      ⟨(length_produceBarrier changed).trans kept.1,
        fun w => (produceBarrier_realId changed w).trans (kept.2 w)⟩) middle second

end

theorem applyDep_counts {after : Slots} (positive : 0 < count)
    (declared : ∀ v ∈ waits ++ posts, v < slots.barriers.length)
    (applied : applyDep isDynamic count waits posts slots = some after) (w : Nat) :
    (after.config w).consumerCount = (slots.config w).consumerCount - count * waits.count w ∧
      (after.config w).producerCount = (slots.config w).producerCount - count * posts.count w ∧
      (w ∈ waits → count ≤ (slots.config w).consumerCount) ∧
      (w ∈ posts → count ≤ (slots.config w).producerCount) := by
  obtain ⟨consumed, first, second⟩ := applyDep_cases applied
  have length := foldlM_slots
    (fun other => other.barriers.length = slots.barriers.length) waits
    (fun v _ before later kept changed => (length_consumeBarrier changed).trans kept) rfl first
  obtain ⟨left, same, enough⟩ := consumeAll_counts positive waits
    (forall_mem_append.mp declared).1 first w
  obtain ⟨fewer, kept, more⟩ := produceAll_counts positive posts
    (fun v mem => by rw [length]; exact declared v (mem_append_right _ mem)) second w
  exact ⟨kept.trans left, by rw [fewer, same], enough, fun mem => by
    rw [← same]
    exact more mem⟩

theorem applyDep_size {after : Slots}
    (applied : applyDep isDynamic count waits posts slots = some after) :
    after.toVirtual.length = slots.toVirtual.length := by
  obtain ⟨consumed, first, second⟩ := applyDep_cases applied
  have middle := foldlM_slots
    (fun other => other.toVirtual.length = slots.toVirtual.length) waits
    (fun v _ before later kept changed => by
      obtain ⟨_, _, _, equal⟩ := consumeBarrier_cases changed
      rw [equal]
      split
      · exact (length_set ..).trans kept
      · exact kept) rfl first
  exact foldlM_slots
    (fun other => other.toVirtual.length = slots.toVirtual.length) posts
    (fun v _ before later kept changed => by
      obtain ⟨_, _, equal⟩ := produceBarrier_cases changed
      rw [equal]
      exact kept) middle second

theorem applyDep_ownership {after : Slots} (positive : 0 < count)
    (declared : ∀ v ∈ waits ++ posts, v < slots.barriers.length)
    (ownership : Ownership hasConsumers isDynamic bar slots)
    (applied : applyDep isDynamic count waits posts slots = some after) :
    Ownership hasConsumers isDynamic bar after := by
  obtain ⟨consumed, first, second⟩ := applyDep_cases applied
  have start : Ownership hasConsumers isDynamic bar slots ∧
      slots.barriers.length = slots.barriers.length := ⟨ownership, rfl⟩
  have middle := foldlM_slots
    (fun other => Ownership hasConsumers isDynamic bar other ∧
      other.barriers.length = slots.barriers.length) waits
    (fun v mem before later kept changed =>
      ⟨kept.1.consume positive (by rw [kept.2]; exact declared v (mem_append_left _ mem)) changed,
        (length_consumeBarrier changed).trans kept.2⟩) start first
  exact (foldlM_slots (fun other => Ownership hasConsumers isDynamic bar other ∧
      other.barriers.length = slots.barriers.length) posts
    (fun v mem before later kept changed =>
      ⟨kept.1.produce positive (by rw [kept.2]; exact declared v (mem_append_right _ mem)) changed,
        (length_produceBarrier changed).trans kept.2⟩) middle second).1

end

variable {isDynamic : Bool} {vdt : VirtualDependencyTracker} {user : BarrierUserConfig}
  {slots : Slots}

theorem processSim_success {after : Slots}
    (processed : processSim isDynamic vdt user slots = .Success after) :
    isReady isDynamic slots (vdt.waits user.virtualDep) (vdt.posts user.virtualDep) = true ∧
      applyDep isDynamic user.count (vdt.waits user.virtualDep) (vdt.posts user.virtualDep)
        slots = some after := by
  unfold processSim at processed
  simp only at processed
  split at processed
  · next ready =>
    split at processed
    · next found applied =>
      rw [Status.Success.injEq] at processed
      exact ⟨ready, processed ▸ applied⟩
    · cases processed
  · cases processed

theorem processSim_skip (skipped : processSim isDynamic vdt user slots = .Skip) :
    isReady isDynamic slots (vdt.waits user.virtualDep) (vdt.posts user.virtualDep) = false := by
  unfold processSim at skipped
  simp only at skipped
  split at skipped
  · split at skipped
    · cases skipped
    · cases skipped
  · next ready => exact Bool.eq_false_of_not_eq_true ready

section

variable {sim : Simulator} {index : Nat} {state : State} {user : BarrierUserConfig}

section

variable (found : (sim.queue index)[state.head index]? = some user)
include found

theorem advanceQueue_of_processed
    (processed : isProcessed state (multiQueueItem sim state index) = true) :
    advanceQueue sim index state = .next (passTask state index) := by
  rw [advanceQueue, found]
  exact if_pos processed

section

variable (pending : isProcessed state (multiQueueItem sim state index) = false)
include pending

theorem advanceQueue_of_success
    (success : processSim sim.isDynamicBarriers sim.vdt user state.slots = .Success slots) :
    advanceQueue sim index state =
      .next (finishTask state index (multiQueueItem sim state index) slots) := by
  rw [advanceQueue, found]
  simp only [pending, Bool.false_eq_true, if_false, success]

theorem advanceQueue_of_skip
    (skipped : processSim sim.isDynamicBarriers sim.vdt user state.slots = .Skip) :
    advanceQueue sim index state = .leave state := by
  rw [advanceQueue, found]
  simp only [pending, Bool.false_eq_true, if_false, skipped]

end

end

end

variable {index limit : Nat}

theorem advanceQueue_next {after : State} (turn : advanceQueue sim index state = .next after) :
    ∃ user, (sim.queue index)[state.head index]? = some user ∧
      ((isProcessed state (multiQueueItem sim state index) = true ∧ after = passTask state index) ∨
        (isProcessed state (multiQueueItem sim state index) = false ∧ ∃ slots,
          processSim sim.isDynamicBarriers sim.vdt user state.slots = .Success slots ∧
          after = finishTask state index (multiQueueItem sim state index) slots)) := by
  unfold advanceQueue at turn
  split at turn
  · cases turn
  · next user found =>
    simp only at turn
    split at turn
    · next processed => exact ⟨user, found, .inl ⟨processed, (Turn.next.inj turn).symm⟩⟩
    · next pending =>
      split at turn
      · next slots success =>
        exact ⟨user, found, .inr ⟨Bool.eq_false_of_not_eq_true pending, slots, success,
          (Turn.next.inj turn).symm⟩⟩
      · cases turn
      · cases turn

theorem advanceQueue_leave {after : State} (turn : advanceQueue sim index state = .leave after) :
    after = state ∧ ((sim.queue index)[state.head index]? = none ∨
      ∃ user, (sim.queue index)[state.head index]? = some user ∧
        isProcessed state (multiQueueItem sim state index) = false ∧
        processSim sim.isDynamicBarriers sim.vdt user state.slots = .Skip) := by
  unfold advanceQueue at turn
  split at turn
  · next empty => exact ⟨(Turn.leave.inj turn).symm, .inl empty⟩
  · next user found =>
    simp only at turn
    split at turn
    · cases turn
    · next pending =>
      split at turn
      · cases turn
      · next skipped => exact ⟨(Turn.leave.inj turn).symm,
          .inr ⟨user, found, Bool.eq_false_of_not_eq_true pending, skipped⟩⟩
      · cases turn

theorem advanceQueue_exit {exited : Exit} (turn : advanceQueue sim index state = .exit exited) :
    exited = .statusFail ∧ ∃ user, (sim.queue index)[state.head index]? = some user ∧
      isProcessed state (multiQueueItem sim state index) = false ∧
      processSim sim.isDynamicBarriers sim.vdt user state.slots = .Fail := by
  unfold advanceQueue at turn
  split at turn
  · cases turn
  · next user found =>
    simp only at turn
    split at turn
    · cases turn
    · next pending =>
      split at turn
      · cases turn
      · cases turn
      · next failed => exact ⟨(Turn.exit.inj turn).symm, user, found,
          Bool.eq_false_of_not_eq_true pending, failed⟩

/-- The number of barriers and that of the slots never change without legalization, and the
owners are kept. -/
structure State.Sound (sim : Simulator) (limit : Nat) (state : State) : Prop where
  length : state.slots.barriers.length = sim.barriers.length
  size : state.slots.toVirtual.length = limit
  owned : state.Owned sim

theorem mapBarrier_sound {after : State} (sound : state.Sound sim limit)
    (turn : (mapBarrier sim state).LeadsTo after) : after.Sound sim limit := by
  have kept := mapBarrier_owned sound.owned turn
  rcases turn with next | leave
  · obtain ⟨_, _, _, _, _, equal⟩ := mapBarrier_next next
    rw [equal] at kept ⊢
    exact ⟨length_bindReal.trans sound.length, (length_set ..).trans sound.size, kept⟩
  · rcases mapBarrier_leave leave with ⟨_, equal⟩ | ⟨_, _, _, equal⟩
    · rw [equal]
      exact sound
    · rw [equal] at kept ⊢
      exact ⟨sound.length, sound.size, kept⟩

theorem advanceQueue_sound (wellFormed : sim.WellFormed) {after : State}
    (sound : state.Sound sim limit) (turn : (advanceQueue sim index state).LeadsTo after) :
    after.Sound sim limit := by
  rcases turn with next | leave
  · obtain ⟨user, found, passed | done⟩ := advanceQueue_next next
    · rw [passed.2]
      exact ⟨sound.length, sound.size, sound.owned⟩
    · obtain ⟨_, slots, success, equal⟩ := done
      have mem : user ∈ sim.queue index := mem_of_getElem? found
      obtain ⟨_, applied⟩ := processSim_success success
      have kept := applyDep_ownership (wellFormed.positive index user mem)
        (fun v inside => by
          rw [sound.length]
          exact wellFormed.declared index user mem v inside) sound.owned applied
      rw [equal]
      exact ⟨(applyDep_frame applied).1.trans sound.length,
        (applyDep_size applied).trans sound.size, kept⟩
  · rw [(advanceQueue_leave leave).1]
    exact sound

end NpuPlugin.BarrierSimulator
