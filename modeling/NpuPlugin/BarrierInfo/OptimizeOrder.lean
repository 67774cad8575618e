/-
This file proves that `optimizeBarriers` keeps the order of the tasks, as each step takes links that
others imply or merges a barrier into an earlier one, and that it ends without an error on a control
graph that is split into blocks.
-/

import NpuPlugin.BarrierInfo.Optimize

namespace NpuPlugin.BarrierInfo

open IncidenceTable List Nat Relation Run

variable {Queue : Type} {info : BarrierInfo Queue} {side : Side}

/-! ### Keeping the order -/

/-- The second state has the tasks of the first one, no additional direct order, and the same
transitive order. -/
structure OrderKept (info after : BarrierInfo Queue) : Prop where
  valid : after.Valid
  same : info.SameTasks after
  controls : ∀ {task child : Nat}, after.Controls task child → info.Controls task child
  precedes : ∀ {task child : Nat}, after.Precedes task child ↔ info.Precedes task child

theorem OrderKept.refl (valid : info.Valid) : info.OrderKept info :=
  ⟨valid, SameTasks.refl info, id, Iff.rfl⟩

theorem OrderKept.trans {between after : BarrierInfo Queue} (one : info.OrderKept between)
    (two : between.OrderKept after) : info.OrderKept after :=
  ⟨two.valid, one.same.trans two.same, fun controls => one.controls (two.controls controls),
    two.precedes.trans one.precedes⟩

theorem OrderKept.ordered {after : BarrierInfo Queue} (kept : info.OrderKept after)
    (ordered : info.IndexOrdered) : after.IndexOrdered :=
  indexOrdered_iff.mpr fun controls => ordered.lt (kept.controls controls)

/-- It is enough that the direct order of one side is bypassed. -/
theorem OrderKept.of_bypassed (side : Side) (ordered : info.IndexOrdered)
    {after : BarrierInfo Queue} (valid : after.Valid) (same : info.SameTasks after)
    (sub : ∀ {task other : Nat}, after.Neighbour side task other → info.Neighbour side task other)
    (bypassed : Reachability.Bypassed (info.Neighbour side) (after.Neighbour side)) :
    info.OrderKept after := by
  have increasing : Reachability.Increasing info.Controls := indexOrdered_iff.mp ordered
  cases side with
  | update =>
    exact ⟨valid, same, sub, Reachability.transGen_iff_of_bypassed increasing bypassed sub⟩
  | wait =>
    have controls : ∀ {task child : Nat}, after.Controls task child → info.Controls task child :=
      fun found => neighbour_wait.mp (sub (neighbour_wait.mpr found))
    -- A path of parents is a path of children in the other direction.
    have turned : ∀ {task other : Nat}, TransGen (info.Neighbour .wait) task other →
        TransGen info.Controls other task := fun path =>
      transGen_swap.mp (TransGen.mono (fun _ _ => neighbour_wait.mp) _ _ path)
    refine ⟨valid, same, controls,
      Reachability.transGen_iff_of_bypassed increasing (fun found => ?_) controls⟩
    rcases bypassed (neighbour_wait.mpr found) with kept | ⟨middle, first, second⟩
    · exact .inl (neighbour_wait.mp kept)
    · exact .inr ⟨middle, turned second, turned first⟩

/-! ### The barriers of a block -/

theorem getLsbD_foldl_setBarrierMask (valid : info.Valid) (tasks : List Nat)
    (mask : BitVec info.getNumOfVirtualBarriers) (idx : Nat) :
    (tasks.foldl (fun mask taskInd => setBarrierMask mask ((info.table side).column taskInd) 0)
        mask).getLsbD idx = true ↔
      mask.getLsbD idx = true ∨ ∃ task ∈ tasks, (info.table side).Linked idx task := by
  induction tasks generalizing mask with
  | nil => simp
  | cons head tail ih =>
    rw [foldl_cons, ih, setBarrierMask, BitMask.getLsbD_foldl_set fun bar => bar - 0]
    simp only [Nat.sub_zero, exists_eq_right, SmallSet.mem_elements, valid.mirrored side _ head,
      mem_cons, exists_eq_or_imp, or_assoc]
    exact or_congr_right (or_congr_left (and_iff_right_of_imp (valid.barrier_lt side)))

theorem setBits_sorted {width : Nat} (mask : BitVec width) : (setBits mask).Pairwise (· < ·) :=
  pairwise_lt_range.filter _

variable {first last : Bool}

theorem getBarriersForTaskBlock_spec (valid : info.Valid) {blockInd : Nat}
    {barriers : List Nat}
    (res : info.getBarriersForTaskBlock blockInd first last side = .ok barriers) :
    ∃ lower upper, info.getControlGraphBlockTaskRange blockInd first last = .ok (lower, upper) ∧
      upper < info.getNumOfTasks ∧ barriers.Pairwise (· < ·) ∧
      ∀ barrier, barrier ∈ barriers ↔
        ∃ task, (lower ≤ task ∧ task ≤ upper) ∧ (info.table side).Linked barrier task := by
  obtain ⟨⟨lower, upper⟩, range, res⟩ := bind_ok res
  simp only at res
  split at res
  · cases res
  · next inside =>
    cases res
    refine ⟨lower, upper, range, not_le.mp inside, setBits_sorted _, fun barrier => ?_⟩
    rw [mem_setBits, getLsbD_foldl_setBarrierMask valid, or_iff_right (by simp)]
    simp only [mem_taskRange]

variable {values : List Nat} {value : Nat}

section

variable (sorted : values.Pairwise (· < ·)) (mem : value ∈ values)
include sorted mem

theorem headD_le_of_mem : values.headD 0 ≤ value := by
  cases values with
  | nil => cases mem
  | cons head tail =>
    rcases mem_cons.mp mem with same | later
    · exact same.ge
    · exact ((pairwise_cons.mp sorted).1 value later).le

theorem le_getLastD_of_mem : value ≤ values.getLastD 0 := by
  have nonempty : values ≠ [] := ne_nil_of_mem mem
  rw [getLastD_eq_getLast?, getLast?_eq_some_getLast nonempty, Option.getD_some]
  rw [← dropLast_append_getLast nonempty, pairwise_append] at sorted
  rw [← dropLast_append_getLast nonempty, mem_append, mem_singleton] at mem
  rcases mem with early | same
  · exact (sorted.2.2 value early _ (mem_singleton.mpr rfl)).le
  · exact same.le

end

theorem getLastD_mem (nonempty : values ≠ []) : values.getLastD 0 ∈ values := by
  rw [getLastD_eq_getLast?, getLast?_eq_some_getLast nonempty, Option.getD_some]
  exact getLast_mem nonempty

/-! ### Redundant producers and consumers -/

variable {lower upper task : Nat}

theorem reflTransGen_neighbour {last : Nat}
    (path : ReflTransGen (info.Follows side lower upper) task last) :
    ReflTransGen (info.Neighbour side) task last :=
  ReflTransGen.mono (fun _ _ follows => follows.2) _ _ path

/-- What a pass over one block leaves: it takes links of one side only, and what it takes from a
barrier another task of the barrier implies. -/
structure Pruned (info : BarrierInfo Queue) (side : Side) (after : BarrierInfo Queue) : Prop where
  valid : after.Valid
  same : info.SameTasks after
  opposite : after.table side.opposite = info.table side.opposite
  linked : ∀ {barrier task : Nat},
    (after.table side).Linked barrier task → (info.table side).Linked barrier task
  implied : ∀ {barrier task : Nat}, (info.table side).Linked barrier task →
    (after.table side).Linked barrier task ∨ ∃ middle last, info.Neighbour side task middle ∧
      ReflTransGen (info.Neighbour side) middle last ∧ (info.table side).Linked barrier last

variable {after : BarrierInfo Queue} {blockIdx : Nat}

theorem Pruned.kept (pruned : Pruned info side after) (ordered : info.IndexOrdered) :
    info.OrderKept after := by
  refine OrderKept.of_bypassed side ordered pruned.valid pruned.same ?_ ?_
  · rintro task other ⟨barrier, own, opposite⟩
    rw [pruned.opposite] at opposite
    exact ⟨barrier, pruned.linked own, opposite⟩
  · rintro task other ⟨barrier, own, opposite⟩
    rcases pruned.implied own with stays | ⟨middle, last, step, path, linked⟩
    · refine .inl ⟨barrier, stays, ?_⟩
      rw [pruned.opposite]
      exact opposite
    · exact .inr ⟨middle, .single step, TransGen.tail' path ⟨barrier, linked, opposite⟩⟩

section

variable (valid : info.Valid) (ordered : info.IndexOrdered)
  (res : info.optimizeBarrierSide side blockIdx = .ok after)
include valid ordered res

theorem optimizeBarrierSide_pruned : Pruned info side after := by
  obtain ⟨⟨lower, upper⟩, range, res⟩ := bind_ok res
  obtain ⟨barriers, block, res⟩ := bind_ok res
  obtain ⟨_, _, sameRange, inside, sorted, members⟩ := getBarriersForTaskBlock_spec valid block
  rw [range] at sameRange
  cases sameRange
  dsimp only at res
  split at res
  · cases res
    exact ⟨valid, SameTasks.refl info, rfl, id, .inl⟩
  · next nonempty =>
    have least : min upper (info.getNumOfTasks - 1) = upper := by omega
    rw [least] at res
    split at res
    · cases res
    · obtain ⟨marked, collecting, res⟩ := bind_ok res
      cases res
      have present : barriers ≠ [] := fun none => nonempty (isEmpty_iff.mpr none)
      have head : barriers.headD 0 ≤ barriers.getLastD 0 :=
        headD_le_of_mem sorted (getLastD_mem present)
      have window : info.Window side lower upper (barriers.headD 0)
          (barriers.getLastD 0 - barriers.headD 0 + 1) := by
        refine ⟨inside, fun below above linked => ?_, ?_⟩
        · have mem := (members _).mpr ⟨_, ⟨below, above⟩, linked⟩
          have least := headD_le_of_mem sorted mem
          have greatest := le_getLastD_of_mem sorted mem
          omega
        · obtain ⟨task, _, linked⟩ := (members _).mp (getLastD_mem present)
          have bound := valid.barrier_lt _ linked
          omega
      have start : CollectedUpTo info side lower upper (barriers.headD 0) []
          (collectOrder lower upper side) (replicate (upper - lower + 1)
            (0 : BitVec (barriers.getLastD 0 - barriers.headD 0 + 1))) := by
        refine ⟨length_replicate, by simp, by simp, fun task _ => ?_⟩
        rw [getD_eq_getElem?_getD, getElem?_getD_replicate_default_eq]
      have collected : CollectedUpTo info side lower upper (barriers.headD 0)
          (collectOrder lower upper side) [] marked :=
        collect_spec window valid ordered _ [] rfl start collecting
      have untouched : RemovedUpTo info side lower upper marked []
          (collectOrder lower upper side).reverse (info, marked) :=
        ⟨valid, SameTasks.refl info, rfl, by simp, fun _ _ => rfl⟩
      have removed := remove_spec window collected ordered
        (collectOrder lower upper side).reverse [] rfl untouched
      refine ⟨removed.valid, removed.same, removed.opposite,
        fun own => ((removed.linked _ _).mp own).1, fun {barrier task} own => ?_⟩
      by_cases redundant : info.Redundant side lower upper barrier task
      · obtain ⟨middle, step, _, last, path, linked⟩ := redundant
        exact .inr ⟨middle, last, step, reflTransGen_neighbour path, linked⟩
      · exact .inl ((removed.linked barrier task).mpr ⟨own, fun both => redundant both.2⟩)

theorem optimizeBarrierSide_kept : info.OrderKept after :=
  (optimizeBarrierSide_pruned valid ordered res).kept ordered

end

/-! ### Barriers with the same producers -/

theorem addConsumers_elements (info : BarrierInfo Queue) (barInd : Nat) (consumers : List Nat) :
    consumers.foldl (fun info consumerInd => info.addConsumer barInd consumerInd) info =
      info.modifyTable .wait (·.linkAll barInd consumers) := by
  induction consumers generalizing info with
  | nil => rfl
  | cons head tail ih =>
    rw [foldl_cons, ih]
    rfl

section Merge

variable {barInd childBarInd barrier task : Nat}

theorem linked_mergeBarriers_update :
    (info.mergeBarriers barInd childBarInd).updates.Linked barrier task ↔
      info.updates.Linked barrier task ∧ barrier ≠ childBarInd := by
  unfold mergeBarriers
  rw [addConsumers_elements]
  exact linked_clearRow

theorem linked_mergeBarriers_wait (bound : barInd < info.waits.rows.length) :
    (info.mergeBarriers barInd childBarInd).waits.Linked barrier task ↔
      (info.waits.Linked barrier task ∨ barrier = barInd ∧ info.waits.Linked childBarInd task) ∧
        barrier ≠ childBarInd := by
  unfold mergeBarriers
  rw [addConsumers_elements]
  refine linked_clearRow.trans (and_congr_left fun _ => ?_)
  exact linked_linkAll _ bound

/-- Merging two barriers with the same producers does not change the direct order. -/
theorem mergeBarriers_kept (valid : info.Valid) (different : barInd ≠ childBarInd)
    (bound : barInd < info.getNumOfVirtualBarriers)
    (sameProducers : ∀ task, info.updates.Linked barInd task ↔
      info.updates.Linked childBarInd task) :
    info.OrderKept (info.mergeBarriers barInd childBarInd) := by
  have waitBound : barInd < info.waits.rows.length := by
    rw [← valid.barriers .wait] at bound
    exact bound
  have controls : ∀ {task child : Nat},
      (info.mergeBarriers barInd childBarInd).Controls task child ↔ info.Controls task child := by
    intro task child
    constructor
    · rintro ⟨barrier, updated, waited⟩
      obtain ⟨updated, _⟩ := linked_mergeBarriers_update.mp updated
      rcases ((linked_mergeBarriers_wait waitBound).mp waited).1 with waited | ⟨same, waited⟩
      · exact ⟨barrier, updated, waited⟩
      · exact ⟨childBarInd, (sameProducers task).mp (same ▸ updated), waited⟩
    · rintro ⟨barrier, updated, waited⟩
      by_cases merged : barrier = childBarInd
      · rw [merged] at updated waited
        exact ⟨barInd, linked_mergeBarriers_update.mpr
          ⟨(sameProducers task).mpr updated, different⟩,
          (linked_mergeBarriers_wait waitBound).mpr ⟨.inr ⟨rfl, waited⟩, different⟩⟩
      · exact ⟨barrier, linked_mergeBarriers_update.mpr ⟨updated, merged⟩,
          (linked_mergeBarriers_wait waitBound).mpr ⟨.inl waited, merged⟩⟩
  have moved : (info.modifyTable .wait
      (·.linkAll barInd (info.getBarrierConsumers childBarInd).elements)).Valid :=
    valid.addConsumers bound fun task mem => valid.task_lt .wait mem
  have equal : info.Controls = (info.mergeBarriers barInd childBarInd).Controls :=
    funext fun _ => funext fun _ => propext controls.symm
  refine ⟨?_, ?_, controls.mp, ?_⟩
  · unfold mergeBarriers
    rw [addConsumers_elements]
    exact moved.resetBarrier
  · unfold mergeBarriers
    rw [addConsumers_elements]
    exact ⟨rfl, rfl, rfl, length_rows_clearRow⟩
  · unfold Precedes
    rw [equal]

theorem getBarrierProducers_mergeBarriers_self :
    (info.mergeBarriers barInd childBarInd).getBarrierProducers childBarInd = ∅ := by
  unfold mergeBarriers
  exact row_clearRow_self

theorem getBarrierProducers_mergeBarriers_ne (different : barrier ≠ childBarInd) :
    (info.mergeBarriers barInd childBarInd).getBarrierProducers barrier =
      info.getBarrierProducers barrier := by
  unfold mergeBarriers
  rw [addConsumers_elements]
  exact row_clearRow_ne different

end Merge

variable {pair : Nat × Nat} {barriers : List Nat} {state : BarrierInfo Queue × List (List Nat)}

theorem mem_orderedPairs {count : Nat} (mem : pair ∈ orderedPairs count) :
    pair.1 < pair.2 ∧ pair.2 < count := by
  unfold orderedPairs at mem
  simp only [mem_flatMap, mem_range, mem_map, mem_range'_1] at mem
  obtain ⟨first, bound, second, ⟨lower, upper⟩, rfl⟩ := mem
  exact ⟨lower, by dsimp only; omega⟩

/-- The state of the merging loop: the copied producers are the current ones. -/
structure Merged (info : BarrierInfo Queue) (barriers : List Nat)
    (state : BarrierInfo Queue × List (List Nat)) : Prop where
  kept : info.OrderKept state.1
  copies : state.2 = barriers.map fun barInd => (state.1.getBarrierProducers barInd).elements

section

variable (sorted : barriers.Pairwise (· < ·))
  (inside : ∀ barrier ∈ barriers, barrier < info.getNumOfVirtualBarriers)
  (checkValidSlotCount : Bool) (maxVariantCount : Nat)
  (position : pair.1 < pair.2 ∧ pair.2 < barriers.length) (merged : info.Merged barriers state)
include sorted inside checkValidSlotCount maxVariantCount position merged

theorem mergeIfSameProducers_cases :
    mergeIfSameProducers checkValidSlotCount maxVariantCount barriers state pair = state ∨
      mergeIfSameProducers checkValidSlotCount maxVariantCount barriers state pair =
          (state.1.mergeBarriers (barriers.getD pair.1 0) (barriers.getD pair.2 0),
            state.2.set pair.2 []) ∧
        barriers.getD pair.1 0 < barriers.getD pair.2 0 ∧
        barriers.getD pair.2 0 < state.1.getNumOfVirtualBarriers ∧
        ∀ task, state.1.updates.Linked (barriers.getD pair.1 0) task ↔
          state.1.updates.Linked (barriers.getD pair.2 0) task := by
  obtain ⟨current, copies⟩ := state
  obtain ⟨first, second⟩ := pair
  have old : copies = barriers.map fun barInd => (current.getBarrierProducers barInd).elements :=
    merged.copies
  have copied : ∀ idx < barriers.length, copies.getD idx [] =
      (current.getBarrierProducers (barriers.getD idx 0)).elements := by
    intro idx bound
    rw [old, getD_eq_getElem?_getD, getElem?_map, getD_eq_getElem?_getD, getElem?_eq_getElem bound]
    rfl
  have firstBound : first < barriers.length := position.1.trans position.2
  unfold mergeIfSameProducers
  dsimp only
  split
  · next merges =>
    rw [Bool.and_eq_true, decide_eq_true_eq, copied first firstBound,
      copied second position.2] at merges
    refine .inr ⟨rfl, ?_, ?_, fun task => ?_⟩
    · rw [getD_eq_getElem _ _ firstBound, getD_eq_getElem _ _ position.2]
      exact pairwise_iff_getElem.mp sorted _ _ firstBound position.2 position.1
    · rw [merged.kept.same.barriers, getD_eq_getElem _ _ position.2]
      exact inside _ (getElem_mem position.2)
    · show task ∈ (current.getBarrierProducers _).elements ↔
        task ∈ (current.getBarrierProducers _).elements
      rw [merges.1]
  · exact .inl rfl

theorem mergeIfSameProducers_kept :
    info.Merged barriers
      (mergeIfSameProducers checkValidSlotCount maxVariantCount barriers state pair) := by
  rcases mergeIfSameProducers_cases sorted inside checkValidSlotCount maxVariantCount position
    merged with same | ⟨res, less, bound, sameProducers⟩
  · rw [same]
    exact merged
  rw [res]
  obtain ⟨current, copies⟩ := state
  obtain ⟨first, second⟩ := pair
  refine ⟨merged.kept.trans (mergeBarriers_kept merged.kept.valid less.ne
    (less.trans bound) sameProducers), ?_⟩
  have old : copies = barriers.map fun barInd => (current.getBarrierProducers barInd).elements :=
    merged.copies
  refine ext_getElem? fun idx => ?_
  rw [old]
  by_cases same : second = idx
  · rw [← same, getElem?_set_self (by rw [length_map]; exact position.2),
      getElem?_map, getElem?_eq_getElem position.2, Option.map_some]
    rw [getD_eq_getElem _ _ position.2, getBarrierProducers_mergeBarriers_self]
    rfl
  · rw [getElem?_set_ne same, getElem?_map, getElem?_map]
    by_cases within : idx < barriers.length
    · have different : barriers[idx] ≠ barriers.getD second 0 := by
        rw [getD_eq_getElem _ _ position.2]
        exact fun equal => same ((List.Nodup.getElem_inj_iff
          (sorted.imp fun less => less.ne)).mp equal).symm
      rw [getElem?_eq_getElem within, Option.map_some, Option.map_some,
        getBarrierProducers_mergeBarriers_ne different]
    · rw [getElem?_eq_none (not_lt.mp within)]
      rfl

end

theorem optimizeBarriersWithSameProducers_kept (valid : info.Valid) {checkValidSlotCount : Bool}
    {maxVariantCount : Nat}
    (res : info.optimizeBarriersWithSameProducers checkValidSlotCount maxVariantCount blockIdx =
      .ok after) : info.OrderKept after := by
  obtain ⟨barriers, block, res⟩ := bind_ok res
  obtain ⟨_, _, _, _, sorted, members⟩ := getBarriersForTaskBlock_spec valid block
  have inside : ∀ barrier ∈ barriers, barrier < info.getNumOfVirtualBarriers := by
    intro barrier mem
    obtain ⟨_, _, linked⟩ := (members barrier).mp mem
    exact valid.barrier_lt _ linked
  split at res
  · cases res
    exact OrderKept.refl valid
  · split at res
    · cases res
    · split at res
      · cases res
      · cases res
        have merged := foldlRecOn (motive := info.Merged barriers)
          (orderedPairs barriers.length)
          (mergeIfSameProducers checkValidSlotCount maxVariantCount barriers)
          (⟨OrderKept.refl valid, rfl⟩ : info.Merged barriers (info,
            barriers.map fun barInd => (info.getBarrierProducers barInd).elements))
          fun state merged pair mem => mergeIfSameProducers_kept sorted inside _ _
            (mem_orderedPairs mem) merged
        exact merged.kept

/-! ### The whole optimization -/

variable {checkValidSlotCount : Bool} {maxVariantCount : Nat}

theorem optimizeBlock_kept (ordered : info.IndexOrdered) :
    Run.Preserves info.OrderKept
      fun current => optimizeBlock checkValidSlotCount maxVariantCount current blockIdx := by
  intro current after kept res
  obtain ⟨first, producers, res⟩ := bind_ok res
  obtain ⟨second, merging, consumers⟩ := bind_ok res
  have keptFirst := kept.trans
    (optimizeBarrierSide_kept kept.valid (kept.ordered ordered) producers)
  have keptSecond := keptFirst.trans
    (optimizeBarriersWithSameProducers_kept keptFirst.valid merging)
  exact keptSecond.trans
    (optimizeBarrierSide_kept keptSecond.valid (keptSecond.ordered ordered) consumers)

theorem optimizeBarriers_kept (valid : info.Valid) (ordered : info.IndexOrdered)
    (res : info.optimizeBarriers checkValidSlotCount maxVariantCount = .ok after) :
    info.OrderKept after :=
  Run.Preserves.foldlM _ (fun _ _ => optimizeBlock_kept ordered) info after
    (OrderKept.refl valid) res

/-! ### What every step keeps -/

variable {Queue : Type} {info after : BarrierInfo Queue} {side : Side}

/-- The barrier has a producer, or nothing waits for it. -/
def Filled (info : BarrierInfo Queue) (barrier : Nat) : Prop :=
  (∃ task, info.updates.Linked barrier task) ∨ ∀ task, ¬ info.waits.Linked barrier task

/-- One step of the optimization. -/
inductive Simplifies (info after : BarrierInfo Queue) : Prop
  | pruned (side : Side) (pruned : Pruned info side after)
  | merged (barInd childBarInd : Nat) (less : barInd < childBarInd)
      (bound : childBarInd < info.getNumOfVirtualBarriers) (filled : info.Filled childBarInd)
      (sameProducers : ∀ task, info.updates.Linked barInd task ↔
        info.updates.Linked childBarInd task)
      (res : after = info.mergeBarriers barInd childBarInd)

theorem Simplifies.kept (simplifies : Simplifies info after) (valid : info.Valid)
    (ordered : info.IndexOrdered) : info.OrderKept after := by
  cases simplifies with
  | pruned side pruned => exact pruned.kept ordered
  | merged barInd childBarInd less bound _ sameProducers res =>
    rw [res]
    exact mergeBarriers_kept valid less.ne (less.trans bound) sameProducers

theorem Filled.mergeBarriers {barInd childBarInd : Nat} (different : barInd ≠ childBarInd)
    (bound : barInd < info.waits.rows.length)
    (sameProducers : ∀ task, info.updates.Linked barInd task ↔ info.updates.Linked childBarInd task)
    (childFilled : info.Filled childBarInd) {barrier : Nat} (filled : info.Filled barrier) :
    (info.mergeBarriers barInd childBarInd).Filled barrier := by
  by_cases child : barrier = childBarInd
  · exact .inr fun task linked => ((linked_mergeBarriers_wait bound).mp linked).2 child
  rcases filled with ⟨task, linked⟩ | unused
  · exact .inl ⟨task, linked_mergeBarriers_update.mpr ⟨linked, child⟩⟩
  by_cases same : barrier = barInd
  · subst same
    rcases childFilled with ⟨task, linked⟩ | childUnused
    · exact .inl ⟨task, linked_mergeBarriers_update.mpr ⟨(sameProducers task).mpr linked, child⟩⟩
    · refine .inr fun task linked => ?_
      rcases ((linked_mergeBarriers_wait bound).mp linked).1 with own | ⟨_, moved⟩
      · exact unused task own
      · exact childUnused task moved
  · refine .inr fun task linked => ?_
    rcases ((linked_mergeBarriers_wait bound).mp linked).1 with own | ⟨equal, _⟩
    · exact unused task own
    · exact same equal

/-- The state after some of the merges. -/
structure MergeSteps (info : BarrierInfo Queue) (barriers : List Nat)
    (state : BarrierInfo Queue × List (List Nat)) : Prop where
  merged : info.Merged barriers state
  filled : ∀ barrier ∈ barriers, state.1.Filled barrier
  steps : ReflTransGen Simplifies info state.1

variable {checkValidSlotCount : Bool} {maxVariantCount blockIdx : Nat}

theorem optimizeBarriersWithSameProducers_steps (valid : info.Valid)
    (res : info.optimizeBarriersWithSameProducers checkValidSlotCount maxVariantCount blockIdx =
      .ok after) : ReflTransGen Simplifies info after := by
  obtain ⟨barriers, block, res⟩ := Run.bind_ok res
  obtain ⟨_, _, _, _, sorted, members⟩ := getBarriersForTaskBlock_spec valid block
  have inside : ∀ barrier ∈ barriers, barrier < info.getNumOfVirtualBarriers := by
    intro barrier mem
    obtain ⟨_, _, linked⟩ := (members barrier).mp mem
    exact valid.barrier_lt _ linked
  split at res
  · cases res
    exact .refl
  · split at res
    · cases res
    · split at res
      · cases res
      · cases res
        have start : info.MergeSteps barriers (info,
            barriers.map fun barInd => (info.getBarrierProducers barInd).elements) :=
          ⟨⟨OrderKept.refl valid, rfl⟩, fun barrier mem => .inl (by
            obtain ⟨task, _, linked⟩ := (members barrier).mp mem
            exact ⟨task, linked⟩), .refl⟩
        refine (foldlRecOn (motive := info.MergeSteps barriers) _ _ start
          fun state before pair mem => ?_).steps
        have position := mem_orderedPairs mem
        have merged := mergeIfSameProducers_kept sorted inside checkValidSlotCount
          maxVariantCount position before.merged
        rcases mergeIfSameProducers_cases sorted inside checkValidSlotCount maxVariantCount
          position before.merged with same | ⟨changed, less, bound, sameProducers⟩
        · rw [same]
          exact before
        · rw [changed] at merged ⊢
          have childFilled := before.filled (barriers.getD pair.2 0) (by
            rw [getD_eq_getElem _ _ position.2]
            exact getElem_mem position.2)
          have barBound : barriers.getD pair.1 0 < state.1.waits.rows.length :=
            (before.merged.kept.valid.barriers .wait).symm ▸ less.trans bound
          exact ⟨merged, fun barrier mem => Filled.mergeBarriers less.ne barBound
              sameProducers childFilled (before.filled barrier mem),
            before.steps.tail (.merged _ _ less bound childFilled sameProducers rfl)⟩

/-- A state that is reached by steps of the optimization. -/
structure Reached (info after : BarrierInfo Queue) : Prop where
  kept : info.OrderKept after
  steps : ReflTransGen Simplifies info after

theorem optimizeBlock_reached (ordered : info.IndexOrdered) :
    Run.Preserves info.Reached
      fun current => optimizeBlock checkValidSlotCount maxVariantCount current blockIdx := by
  intro current after before res
  refine ⟨optimizeBlock_kept ordered current after before.kept res, ?_⟩
  obtain ⟨first, producers, res⟩ := Run.bind_ok res
  obtain ⟨second, merging, consumers⟩ := Run.bind_ok res
  have prunedFirst := optimizeBarrierSide_pruned before.kept.valid (before.kept.ordered ordered)
    producers
  have keptFirst := before.kept.trans (prunedFirst.kept (before.kept.ordered ordered))
  have keptSecond := keptFirst.trans
    (optimizeBarriersWithSameProducers_kept keptFirst.valid merging)
  have prunedLast := optimizeBarrierSide_pruned keptSecond.valid (keptSecond.ordered ordered)
    consumers
  exact ((before.steps.tail (.pruned .update prunedFirst)).trans
    (optimizeBarriersWithSameProducers_steps keptFirst.valid merging)).tail
    (.pruned .wait prunedLast)

theorem optimizeBarriers_reached (valid : info.Valid) (ordered : info.IndexOrdered)
    (res : info.optimizeBarriers checkValidSlotCount maxVariantCount = .ok after) :
    info.Reached after :=
  Run.Preserves.foldlM _ (fun _ _ => optimizeBlock_reached ordered) info after
    ⟨OrderKept.refl valid, .refl⟩ res

theorem Reached.preserves (reached : info.Reached after) (valid : info.Valid)
    (ordered : info.IndexOrdered) {Holds : BarrierInfo Queue → Prop} (start : Holds info)
    (step : ∀ {before next : BarrierInfo Queue}, info.OrderKept before → Simplifies before next →
      Holds before → Holds next) : Holds after := by
  have both : ∀ {later : BarrierInfo Queue}, ReflTransGen Simplifies info later →
      info.OrderKept later ∧ Holds later := by
    intro later steps
    induction steps with
    | refl => exact ⟨OrderKept.refl valid, start⟩
    | tail _ simplifies ih =>
      obtain ⟨kept, holds⟩ := ih
      exact ⟨kept.trans (simplifies.kept kept.valid (kept.ordered ordered)),
        step kept simplifies holds⟩
  exact (both reached.steps).2

/-! ### Half-empty barriers -/

/-- Only one of the two sides of a barrier has tasks. -/
def HalfEmpty (info : BarrierInfo Queue) (barrier : Nat) : Prop :=
  ¬ ((∃ task, info.updates.Linked barrier task) ↔ ∃ task, info.waits.Linked barrier task)

/-- How far a task is from the end of the program its neighbours lead to. -/
def distance (info : BarrierInfo Queue) (side : Side) (task : Nat) : Nat :=
  match side with
  | .update => info.getNumOfTasks - task
  | .wait => task

variable {task other barrier : Nat}

theorem distance_lt (valid : info.Valid) (ordered : info.IndexOrdered)
    (neighbour : info.Neighbour side task other) :
    info.distance side other < info.distance side task := by
  cases side with
  | update =>
    obtain ⟨barrier, updated, waited⟩ := neighbour
    have less := ordered barrier _ _ updated waited
    have bound := valid.task_lt .wait waited
    unfold distance
    dsimp only
    omega
  | wait => exact ordered.lt (neighbour_wait.mp neighbour)

theorem distance_le (valid : info.Valid) (ordered : info.IndexOrdered)
    (path : ReflTransGen (info.Neighbour side) task other) :
    info.distance side other ≤ info.distance side task := by
  induction path with
  | refl => exact le_rfl
  | tail _ step ih => exact (distance_lt valid ordered step).le.trans ih

section

variable (pruned : Pruned info side after) (valid : info.Valid) (ordered : info.IndexOrdered)
include pruned valid ordered

/-- The last task of a barrier in the direction of a pass keeps it. -/
theorem Pruned.exists_linked (linked : (info.table side).Linked barrier task) :
    ∃ other, (after.table side).Linked barrier other := by
  induction far : info.distance side task using Nat.strong_induction_on generalizing task with
  | _ far ih =>
    rcases pruned.implied linked with stays | ⟨middle, last, step, path, linkedLast⟩
    · exact ⟨task, stays⟩
    · have closer : info.distance side last < info.distance side task :=
        (distance_le valid ordered path).trans_lt (distance_lt valid ordered step)
      exact ih _ (by omega) linkedLast rfl

theorem Pruned.exists_iff (other : Side) (barrier : Nat) :
    (∃ task, (after.table other).Linked barrier task) ↔
      ∃ task, (info.table other).Linked barrier task := by
  by_cases same : other = side
  · subst same
    exact ⟨fun ⟨task, linked⟩ => ⟨task, pruned.linked linked⟩,
      fun ⟨_, linked⟩ => pruned.exists_linked valid ordered linked⟩
  · have opposite : other = side.opposite := by
      cases side <;> cases other <;> first | rfl | exact absurd rfl same
    rw [opposite, pruned.opposite]

end

theorem Simplifies.halfEmpty (simplifies : Simplifies info after) (valid : info.Valid)
    (ordered : info.IndexOrdered) (half : after.HalfEmpty barrier) : info.HalfEmpty barrier := by
  cases simplifies with
  | pruned side pruned =>
    exact fun balanced => half ((pruned.exists_iff valid ordered .update barrier).trans
      (balanced.trans (pruned.exists_iff valid ordered .wait barrier).symm))
  | merged barInd childBarInd less bound filled sameProducers res =>
    subst res
    have waitBound : barInd < info.waits.rows.length :=
      (valid.barriers .wait).symm ▸ less.trans bound
    intro balanced
    refine half ⟨fun ⟨task, linked⟩ => ?_, fun ⟨task, linked⟩ => ?_⟩
    · obtain ⟨own, child⟩ := linked_mergeBarriers_update.mp linked
      obtain ⟨consumer, waited⟩ := balanced.mp ⟨task, own⟩
      exact ⟨consumer, (linked_mergeBarriers_wait waitBound).mpr ⟨.inl waited, child⟩⟩
    · obtain ⟨waited, child⟩ := (linked_mergeBarriers_wait waitBound).mp linked
      rcases waited with own | ⟨same, moved⟩
      · obtain ⟨producer, updated⟩ := balanced.mpr ⟨task, own⟩
        exact ⟨producer, linked_mergeBarriers_update.mpr ⟨updated, child⟩⟩
      · rcases filled with ⟨producer, updated⟩ | unused
        · exact ⟨producer, linked_mergeBarriers_update.mpr
            ⟨same ▸ (sameProducers producer).mpr updated, child⟩⟩
        · exact absurd moved (unused task)

theorem Reached.halfEmpty (reached : info.Reached after) (valid : info.Valid)
    (ordered : info.IndexOrdered) (half : after.HalfEmpty barrier) : info.HalfEmpty barrier := by
  by_contra full
  refine @Reached.preserves Queue info after reached valid ordered
    (fun state => ¬ state.HalfEmpty barrier) full ?_ half
  exact fun kept simplifies notHalf later =>
    notHalf (simplifies.halfEmpty kept.valid (kept.ordered ordered) later)

/-! ### The split control graph -/

/-- Barriers lead out of a block only from its sync task, and only into the next block. -/
def RespectsSplit (info : BarrierInfo Queue) : Prop :=
  info.syncTasksIds ≠ [] → ∀ {task child : Nat}, info.Controls task child →
    respectsSplit info.controlGraphBlockSize task child = true

theorem verifyControlGraphSplit_respects (valid : info.Valid)
    (verified : info.verifyControlGraphSplit = .ok true) : info.RespectsSplit := by
  rintro split task child ⟨barrier, updated, waited⟩
  unfold verifyControlGraphSplit at verified
  rw [if_neg fun none => split (isEmpty_iff.mp none)] at verified
  obtain ⟨_, _, verified⟩ := bind_ok verified
  split at verified
  · cases verified
  · have all := Except.ok.inj verified
    simp only [all_eq_true, mem_range, SmallSet.mem_elements] at all
    exact all task (valid.task_lt .update updated) barrier
      ((valid.mirrored .update barrier task).mpr updated) child waited

variable {after : BarrierInfo Queue}

theorem RespectsSplit.of_kept (respects : info.RespectsSplit) (kept : info.OrderKept after) :
    after.RespectsSplit := by
  intro split task child controls
  rw [kept.same.blockSize]
  rw [kept.same.syncTasksIds] at split
  exact respects split (kept.controls controls)

theorem SyncTasksPlaced.of_same (placed : info.SyncTasksPlaced) (same : info.SameTasks after) :
    after.SyncTasksPlaced := by
  constructor
  · rw [same.tasks]
    exact placed.occupied
  · rw [same.syncTasksIds, same.blockSize]
    exact placed.placed
  · rw [same.syncTasksIds, same.tasks]
    exact placed.bound

section Blocks

variable {blockInd : Nat}

section

variable (placed : info.SyncTasksPlaced)
include placed

theorem SyncTasksPlaced.getD_eq (inside : blockInd < info.syncTasksIds.length) :
    info.syncTasksIds.getD blockInd 0 = (blockInd + 1) * info.controlGraphBlockSize - 1 := by
  rw [placed.placed, getD_eq_getElem?_getD, getElem?_map, getElem?_range inside]
  rfl

theorem SyncTasksPlaced.getD_bound (inside : blockInd < info.syncTasksIds.length) :
    1 ≤ info.syncTasksIds.getD blockInd 0 ∧
      info.syncTasksIds.getD blockInd 0 + 1 < info.getNumOfTasks := by
  rw [getD_eq_getElem _ _ inside]
  exact placed.bound _ (getElem_mem inside)

theorem SyncTasksPlaced.blockSize_pos (split : info.syncTasksIds ≠ []) :
    2 ≤ info.controlGraphBlockSize := by
  have inside : 0 < info.syncTasksIds.length := length_pos_iff.mpr split
  have bound := (placed.getD_bound inside).1
  rw [placed.getD_eq inside] at bound
  omega

theorem SyncTasksPlaced.isSyncPoint (inside : blockInd < info.syncTasksIds.length) :
    info.isSyncPoint (info.syncTasksIds.getD blockInd 0) = true := by
  have size := placed.blockSize_pos (ne_nil_of_length_pos (zero_lt_of_lt inside))
  have bound := placed.getD_bound inside
  have multiple : info.syncTasksIds.getD blockInd 0 + 1 =
      (blockInd + 1) * info.controlGraphBlockSize := by
    rw [placed.getD_eq inside] at bound ⊢
    omega
  unfold BarrierInfo.isSyncPoint
  rw [multiple, mul_mod_left]
  simp only [Bool.and_eq_true, decide_eq_true_eq, and_true]
  omega

end

/-- The range of a block with its sync points. -/
structure BlockRange (info : BarrierInfo Queue) (blockInd lower upper : Nat) : Prop where
  inside : upper < info.getNumOfTasks
  nonempty : lower ≤ upper
  first : blockInd = 0 ∧ lower = 0 ∨ 0 < blockInd ∧ info.isSyncPoint lower = true ∧
    lower + 1 = blockInd * info.controlGraphBlockSize ∧ info.syncTasksIds ≠ []
  last : blockInd = info.syncTasksIds.length ∧ upper + 1 = info.getNumOfTasks ∨
    blockInd < info.syncTasksIds.length ∧ info.isSyncPoint upper = true ∧
      upper + 1 = (blockInd + 1) * info.controlGraphBlockSize ∧ info.syncTasksIds ≠ []

theorem previous_ok {idx : Nat} (pos : 0 < idx) : previous idx = .ok (idx - 1) := by
  cases idx with
  | zero => exact absurd pos (lt_irrefl 0)
  | succ idx => rfl

section

variable (placed : info.SyncTasksPlaced) (block : blockInd < info.getControlGraphBlockCount)
include placed block

theorem getControlGraphBlockTaskRange_ok :
    ∃ lower upper, info.getControlGraphBlockTaskRange blockInd true true = .ok (lower, upper) ∧
      info.BlockRange blockInd lower upper := by
  have count : blockInd ≤ info.syncTasksIds.length := le_of_lt_succ block
  let lower := if blockInd = 0 then 0 else info.syncTasksIds.getD (blockInd - 1) 0
  let upper := if blockInd + 1 = info.getControlGraphBlockCount then info.getNumOfTasks - 1
    else info.syncTasksIds.getD blockInd 0
  have range : info.getControlGraphBlockTaskRange blockInd true true = .ok (lower, upper) := by
    unfold getControlGraphBlockTaskRange
    rw [if_neg block.not_ge]
    by_cases last : blockInd + 1 = info.getControlGraphBlockCount
    · simp only [last, if_true, previous_ok placed.occupied, upper, lower]
      rfl
    · simp only [last, if_false, if_true, upper, lower]
      rfl
  refine ⟨lower, upper, range, ?_⟩
  have first : blockInd = 0 ∧ lower = 0 ∨ 0 < blockInd ∧ info.isSyncPoint lower = true ∧
      lower + 1 = blockInd * info.controlGraphBlockSize ∧ info.syncTasksIds ≠ [] := by
    rcases Nat.eq_zero_or_pos blockInd with zero | pos
    · exact .inl ⟨zero, if_pos zero⟩
    · have inside : blockInd - 1 < info.syncTasksIds.length := by omega
      have equal : lower = info.syncTasksIds.getD (blockInd - 1) 0 := if_neg (by omega)
      have bound := placed.getD_bound inside
      refine .inr ⟨pos, equal ▸ placed.isSyncPoint inside, ?_,
        ne_nil_of_length_pos (zero_lt_of_lt inside)⟩
      have value := placed.getD_eq inside
      rw [Nat.sub_add_cancel pos] at value
      omega
  have last : blockInd = info.syncTasksIds.length ∧ upper + 1 = info.getNumOfTasks ∨
      blockInd < info.syncTasksIds.length ∧ info.isSyncPoint upper = true ∧
        upper + 1 = (blockInd + 1) * info.controlGraphBlockSize ∧ info.syncTasksIds ≠ [] := by
    rcases lt_or_ge blockInd info.syncTasksIds.length with inside | final
    · have equal : upper = info.syncTasksIds.getD blockInd 0 := by
        refine if_neg fun same => ?_
        unfold getControlGraphBlockCount at same
        omega
      have bound := placed.getD_bound inside
      refine .inr ⟨inside, equal ▸ placed.isSyncPoint inside, ?_,
        ne_nil_of_length_pos (zero_lt_of_lt inside)⟩
      have value := placed.getD_eq inside
      omega
    · have same : blockInd = info.syncTasksIds.length := by omega
      have equal : upper = info.getNumOfTasks - 1 := if_pos (congrArg (· + 1) same)
      have occupied := placed.occupied
      exact .inl ⟨same, by omega⟩
  have sync : ∀ idx < info.syncTasksIds.length,
      info.syncTasksIds.getD idx 0 + 1 < info.getNumOfTasks := fun idx inside =>
    (placed.getD_bound inside).2
  refine ⟨?_, ?_, first, last⟩
  · rcases last with ⟨_, equal⟩ | ⟨inside, _, _, _⟩
    · omega
    · have bound := sync blockInd inside
      have equal : upper = info.syncTasksIds.getD blockInd 0 := by
        refine if_neg fun same => ?_
        unfold getControlGraphBlockCount at same
        omega
      omega
  · rcases first with ⟨_, zero⟩ | ⟨pos, _, start, _⟩
    · omega
    · rcases last with ⟨_, equal⟩ | ⟨_, _, ending, _⟩
      · have inside : blockInd - 1 < info.syncTasksIds.length := by omega
        have bound := sync _ inside
        have lowerEqual : lower = info.syncTasksIds.getD (blockInd - 1) 0 := if_neg (by omega)
        omega
      · have grows : blockInd * info.controlGraphBlockSize ≤
            (blockInd + 1) * info.controlGraphBlockSize :=
          mul_le_mul_right _ (le_succ blockInd)
        omega

theorem getControlGraphBlockTaskRange_inner :
    ∃ lower upper, info.getControlGraphBlockTaskRange blockInd true false = .ok (lower, upper) ∧
      upper < info.getNumOfTasks := by
  have occupied := placed.occupied
  unfold getControlGraphBlockTaskRange
  rw [if_neg block.not_ge]
  by_cases last : blockInd + 1 = info.getControlGraphBlockCount
  · simp only [last, if_true, previous_ok occupied]
    exact ⟨_, info.getNumOfTasks - 1, rfl, by omega⟩
  · have inside : blockInd < info.syncTasksIds.length := by
      unfold getControlGraphBlockCount at block last
      omega
    have bound := placed.getD_bound inside
    simp only [last, if_false, Bool.false_eq_true, previous_ok bound.1]
    exact ⟨_, info.syncTasksIds.getD blockInd 0 - 1, rfl, by omega⟩

end

theorem RespectsSplit.block (respects : info.RespectsSplit) (placed : info.SyncTasksPlaced)
    (split : info.syncTasksIds ≠ []) {child : Nat} (controls : info.Controls task child) :
    task / info.controlGraphBlockSize = child / info.controlGraphBlockSize ∨
      task + 1 = (task / info.controlGraphBlockSize + 1) * info.controlGraphBlockSize ∧
        task / info.controlGraphBlockSize + 1 = child / info.controlGraphBlockSize := by
  have size := placed.blockSize_pos split
  have respected := respects split controls
  unfold respectsSplit at respected
  dsimp only at respected
  have pos : 0 < (task / info.controlGraphBlockSize + 1) * info.controlGraphBlockSize :=
    Nat.mul_pos (Nat.succ_pos _) (by omega)
  split at respected
  · next sync => exact .inr ⟨by omega, of_decide_eq_true respected⟩
  · exact .inl (of_decide_eq_true respected)

theorem follows_inside (side : Side) (valid : info.Valid) (ordered : info.IndexOrdered)
    (respects : info.RespectsSplit) (placed : info.SyncTasksPlaced)
    (range : info.BlockRange blockInd lower upper) {other : Nat} (below : lower ≤ task)
    (above : task ≤ upper) (follows : info.Follows side lower upper task other) :
    lower ≤ other ∧ other ≤ upper := by
  obtain ⟨regular, neighbour⟩ := follows
  cases side with
  | update =>
    have less : task < other := ordered.lt neighbour
    refine ⟨by omega, ?_⟩
    rcases range.last with ⟨_, final⟩ | ⟨_, sync, final, split⟩
    · have bound := valid.task_lt .wait neighbour.choose_spec.2
      omega
    · have size := placed.blockSize_pos split
      -- The task is not the sync task at the end, so its block does not end before the child.
      have different : task ≠ upper := fun same => regular ⟨same, same ▸ sync⟩
      have early : task / info.controlGraphBlockSize < blockInd + 1 := by
        rw [div_lt_iff_lt_mul (by omega)]
        omega
      have inside : other / info.controlGraphBlockSize < blockInd + 1 := by
        rcases respects.block placed split neighbour with same | ⟨ends, next⟩
        · omega
        · have notLast : task / info.controlGraphBlockSize ≠ blockInd := by
            intro same
            rw [same] at ends
            omega
          omega
      rw [div_lt_iff_lt_mul (by omega)] at inside
      omega
  | wait =>
    have controls : info.Controls other task := neighbour_wait.mp neighbour
    have less : other < task := ordered.lt controls
    refine ⟨?_, by omega⟩
    rcases range.first with ⟨_, zero⟩ | ⟨-, sync, start, split⟩
    · omega
    · have size := placed.blockSize_pos split
      have different : task ≠ lower := fun same => regular ⟨same, same ▸ sync⟩
      have late : blockInd ≤ task / info.controlGraphBlockSize := by
        rw [le_div_iff_mul_le (by omega)]
        omega
      rcases respects.block placed split controls with same | ⟨ends, next⟩
      · rw [← same, le_div_iff_mul_le (by omega)] at late
        omega
      · have grows : blockInd * info.controlGraphBlockSize ≤
            (other / info.controlGraphBlockSize + 1) * info.controlGraphBlockSize :=
          mul_le_mul_right _ (by omega)
        omega

/-! ### The optimization ends -/

theorem getBarriersForTaskBlock_ok (side : Side)
    (range : info.getControlGraphBlockTaskRange blockInd first last = .ok (lower, upper))
    (inside : upper < info.getNumOfTasks) :
    ∃ barriers, info.getBarriersForTaskBlock blockInd first last side = .ok barriers := by
  unfold getBarriersForTaskBlock
  rw [range]
  exact ⟨_, if_neg inside.not_ge⟩

theorem collect_ok (side : Side) (offset width : Nat) (valid : info.Valid)
    (inside : ∀ {task other : Nat}, lower ≤ task → task ≤ upper →
      info.Follows side lower upper task other → lower ≤ other ∧ other ≤ upper)
    (masks : List (BitVec width)) :
    ∃ marked, (collectOrder lower upper side).foldlM
      (info.collectTask side lower upper offset) masks = .ok marked := by
  have succeeds : ∃ marked, (collectOrder lower upper side).foldlM
      (info.collectTask side lower upper offset) masks = .ok marked ∧ True := by
    refine foldlM_ok (fun _ => True) _ (fun task mem masks _ => ?_) masks trivial
    have bounds := mem_collectOrder.mp mem
    unfold collectTask
    dsimp only
    split
    · exact ⟨_, rfl, trivial⟩
    · next regular =>
      rw [Bool.and_eq_true, decide_eq_true_eq] at regular
      obtain ⟨joined, res⟩ := BitMask.foldlM_join_ok (inRange lower upper)
        (fun other => masks.getD (other - lower) 0)
        (fun other => Failure.outsideOfRange task other lower upper) (info.neighbours side task)
        (setBarrierMask (masks.getD (task - lower) 0) ((info.table side).column task) offset)
        fun other mem => inRange_iff.mpr
          (inside bounds.1 bounds.2 ⟨regular, (mem_neighbours valid).mp mem⟩)
      rw [res]
      exact ⟨_, rfl, trivial⟩
  exact succeeds.imp fun _ => And.left

theorem optimizeBarrierSide_ok (side : Side) (valid : info.Valid) (ordered : info.IndexOrdered)
    (respects : info.RespectsSplit) (placed : info.SyncTasksPlaced)
    (block : blockInd < info.getControlGraphBlockCount) :
    ∃ after, info.optimizeBarrierSide side blockInd = .ok after := by
  obtain ⟨lower, upper, range, blockRange⟩ := getControlGraphBlockTaskRange_ok placed block
  obtain ⟨barriers, found⟩ := getBarriersForTaskBlock_ok side range blockRange.inside
  have least : min upper (info.getNumOfTasks - 1) = upper := by
    have inside := blockRange.inside
    omega
  unfold optimizeBarrierSide
  simp only [range, found, bind, Except.bind]
  split
  · exact ⟨info, rfl⟩
  · simp only [least]
    rw [if_neg blockRange.nonempty.not_gt]
    obtain ⟨marked, collecting⟩ := collect_ok side (barriers.headD 0)
      (barriers.getLastD 0 - barriers.headD 0 + 1) valid
      (fun below above => follows_inside side valid ordered respects placed blockRange
        below above) (replicate (upper - lower + 1) 0)
    rw [collecting]
    exact ⟨_, rfl⟩

theorem optimizeBarriersWithSameProducers_ok (valid : info.Valid) (placed : info.SyncTasksPlaced)
    (block : blockInd < info.getControlGraphBlockCount) (checkValidSlotCount : Bool)
    (maxVariantCount : Nat) : ∃ after,
      info.optimizeBarriersWithSameProducers checkValidSlotCount maxVariantCount blockInd =
        .ok after := by
  obtain ⟨lower, upper, range, inside⟩ := getControlGraphBlockTaskRange_inner placed block
  obtain ⟨barriers, found⟩ := getBarriersForTaskBlock_ok .update range inside
  obtain ⟨_, _, _, _, sorted, members⟩ := getBarriersForTaskBlock_spec valid found
  unfold optimizeBarriersWithSameProducers
  simp only [found, bind, Except.bind]
  split
  · exact ⟨info, rfl⟩
  · next nonempty =>
    have present : barriers ≠ [] := fun none => nonempty (isEmpty_iff.mpr none)
    obtain ⟨_, _, linked⟩ := (members _).mp (getLastD_mem present)
    have bound := valid.barrier_lt .update linked
    have least := headD_le_of_mem sorted (getLastD_mem present)
    rw [if_neg (by omega), if_neg (by omega)]
    exact ⟨_, rfl⟩

end Blocks

theorem optimizeBarriers_ok (valid : info.Valid) (ordered : info.IndexOrdered)
    (respects : info.RespectsSplit) (placed : info.SyncTasksPlaced) (checkValidSlotCount : Bool)
    (maxVariantCount : Nat) :
    ∃ after, info.optimizeBarriers checkValidSlotCount maxVariantCount = .ok after := by
  have each : ∀ blockInd ∈ range info.getControlGraphBlockCount, ∀ current,
      info.OrderKept current → ∃ after,
        optimizeBlock checkValidSlotCount maxVariantCount current blockInd = .ok after ∧
          info.OrderKept after := by
    intro blockInd mem current kept
    have count : ∀ {after : BarrierInfo Queue}, info.OrderKept after →
        blockInd < after.getControlGraphBlockCount := by
      intro after kept
      unfold getControlGraphBlockCount
      rw [kept.same.syncTasksIds]
      exact mem_range.mp mem
    obtain ⟨first, producers⟩ := optimizeBarrierSide_ok .update kept.valid
      (kept.ordered ordered) (respects.of_kept kept) (placed.of_same kept.same) (count kept)
    have keptFirst := kept.trans
      (optimizeBarrierSide_kept kept.valid (kept.ordered ordered) producers)
    obtain ⟨second, merging⟩ := optimizeBarriersWithSameProducers_ok keptFirst.valid
      (placed.of_same keptFirst.same) (count keptFirst) checkValidSlotCount maxVariantCount
    have keptSecond := keptFirst.trans
      (optimizeBarriersWithSameProducers_kept keptFirst.valid merging)
    obtain ⟨third, consumers⟩ := optimizeBarrierSide_ok .wait keptSecond.valid
      (keptSecond.ordered ordered) (respects.of_kept keptSecond)
      (placed.of_same keptSecond.same) (count keptSecond)
    have keptThird := keptSecond.trans
      (optimizeBarrierSide_kept keptSecond.valid (keptSecond.ordered ordered) consumers)
    refine ⟨third, ?_, keptThird⟩
    unfold optimizeBlock optimizeBarrierProducers optimizeBarrierConsumers
    simp only [producers, merging, consumers, bind, Except.bind]
  exact (foldlM_ok info.OrderKept _ each info (OrderKept.refl valid)).imp fun _ => And.left

/-- Whatever slots the tasks take and whether or not they are checked, the optimization of a
split control graph keeps the order of the tasks. It ends without an error when the sync tasks
are where the split puts them. -/
theorem optimizeBarriers_order (valid : info.Valid) (ordered : info.IndexOrdered)
    (verified : info.verifyControlGraphSplit = .ok true) (checkValidSlotCount : Bool)
    (maxVariantCount : Nat) :
    (∀ after, info.optimizeBarriers checkValidSlotCount maxVariantCount = .ok after →
      ∀ task child, after.Precedes task child ↔ info.Precedes task child) ∧
    (info.SyncTasksPlaced →
      ∃ after, info.optimizeBarriers checkValidSlotCount maxVariantCount = .ok after) :=
  ⟨fun _ res _ _ => (optimizeBarriers_kept valid ordered res).precedes,
    fun placed => optimizeBarriers_ok valid ordered
      (verifyControlGraphSplit_respects valid verified) placed _ _⟩

/-- Two blocks of two tasks. The first barrier orders the tasks of the first block, the second one
repeats it; the sync task is followed by both tasks of the second block, which are ordered too. -/
def twoBlockTasks : List (TaskOp Nat) :=
  [⟨0, 1, [], [0, 1], false⟩, ⟨0, 1, [0, 1], [2, 3], true⟩, ⟨0, 1, [2], [4], false⟩,
    ⟨0, 1, [3, 4], [], false⟩]

theorem twoBlockTasks_built : ∃ info : BarrierInfo Nat, buildBarrierMaps twoBlockTasks 5 =
    .ok info ∧
    decide (info.IndexOrdered ∧ info.verifyControlGraphSplit = .ok true ∧
      info.syncTasksIds = [1] ∧ info.controlGraphBlockSize = 2) = true :=
  exists_ok _ _ (by decide)

theorem optimizeBarriers_order_two_blocks : ∃ info after : BarrierInfo Nat,
    buildBarrierMaps twoBlockTasks 5 = .ok info ∧ info.optimizeBarriers true 4 = .ok after ∧
      ∀ task child, after.Precedes task child ↔ info.Precedes task child := by
  obtain ⟨info, built, checked⟩ := twoBlockTasks_built
  obtain ⟨ordered, verified, ids, size⟩ := of_decide_eq_true checked
  obtain ⟨valid, tasks⟩ := buildBarrierMaps_valid built
  have placed : info.SyncTasksPlaced := by
    refine ⟨?_, ?_, ?_⟩
    · unfold getNumOfTasks
      rw [tasks]
      decide
    · rw [ids, size]
      decide
    · unfold getNumOfTasks
      rw [ids, tasks]
      decide
  have order := optimizeBarriers_order valid ordered verified true 4
  obtain ⟨after, res⟩ := order.2 placed
  exact ⟨info, after, built, res, order.1 after res⟩

end NpuPlugin.BarrierInfo
