/-
This file models `optimizeBarriers`: in each block it removes update barriers that follow from the
barriers of later tasks, merges barriers with the same producers, and removes wait barriers that
follow from those of earlier tasks.
-/

import NpuPlugin.BarrierInfo.Model
import NpuPlugin.Library.Words
import NpuPlugin.Library.Reachability

namespace NpuPlugin.BarrierInfo

open IncidenceTable List Relation SmallSet

variable {Queue : Type} (info : BarrierInfo Queue)

/-! ### Redundant producers and consumers -/

variable (side : Side) (checkValidSlotCount : Bool)

/-- The tasks at the other side of the barriers of a task: the children of a producer, the
parents of a consumer. -/
def neighbours (taskInd : Nat) : List Nat :=
  ((info.table side).column taskInd).elements.flatMap fun barrierInd =>
    ((info.table side.opposite).row barrierInd).elements

def inRange (low high val : Nat) : Bool := low ≤ val && val ≤ high

/-- The end of a block whose barriers lead out of the block. -/
def outerBound (blockStartInd blockEndInd : Nat) : Side → Nat
  | .update => blockEndInd
  | .wait => blockStartInd

/-- The order in which the barriers are collected. They are removed in the reverse order. -/
def collectOrder (blockStartInd blockEndInd : Nat) : Side → List Nat
  | .update => (taskRange blockStartInd blockEndInd).reverse
  | .wait => taskRange blockStartInd blockEndInd

/-- The barriers of a task and those collected for its neighbours. A sync point at the outer
bound only has neighbours outside of the range, which are ignored. -/
def collectTask (blockStartInd blockEndInd barrierOffset : Nat) {width : Nat}
    (masks : List (BitVec width)) (taskInd : Nat) : Except Failure (List (BitVec width)) := do
  let own := setBarrierMask (masks.getD (taskInd - blockStartInd) 0)
    ((info.table side).column taskInd) barrierOffset
  if taskInd = outerBound blockStartInd blockEndInd side && info.isSyncPoint taskInd then
    return masks.set (taskInd - blockStartInd) own
  else
    let mask ← (info.neighbours side taskInd).foldlM (fun mask other =>
      if inRange blockStartInd blockEndInd other then
        .ok (mask ||| masks.getD (other - blockStartInd) 0)
      else .error (.outsideOfRange taskInd other blockStartInd blockEndInd)) own
    return masks.set (taskInd - blockStartInd) mask

/-- Leave a task those of its barriers that no neighbour has collected. -/
def removeTask (blockStartInd blockEndInd barrierOffset : Nat) {width : Nat}
    (state : BarrierInfo Queue × List (BitVec width)) (taskInd : Nat) :
    BarrierInfo Queue × List (BitVec width) :=
  let (info, masks) := state
  let mask := (info.neighbours side taskInd).foldl (fun mask other =>
    if inRange blockStartInd blockEndInd other then
      mask &&& ~~~ masks.getD (other - blockStartInd) 0
    else mask) (masks.getD (taskInd - blockStartInd) 0)
  let targetBarriers : TaskSet := .ofList ((setBits mask).map fun bar => bar + barrierOffset)
  (info.modifyTable side (·.setColumn taskInd targetBarriers),
    masks.set (taskInd - blockStartInd) mask)

/-- `optimizeBarrierProducers` and `optimizeBarrierConsumers` are mirror images. -/
def optimizeBarrierSide (blockIdx : Nat) : Except Failure (BarrierInfo Queue) := do
  let (blockStartInd, blockEndInd) ← info.getControlGraphBlockTaskRange blockIdx true true
  let barriersRangeVec ← info.getBarriersForTaskBlock blockIdx true true side
  if barriersRangeVec.isEmpty then return info
  else
    let barrierOffset := barriersRangeVec.headD 0
    let blockEndInd := min blockEndInd (info.getNumOfTasks - 1)
    if blockEndInd < blockStartInd then .error .emptyOptimizationRange
    else
      let width := barriersRangeVec.getLastD 0 - barriersRangeVec.headD 0 + 1
      let masks : List (BitVec width) := .replicate (blockEndInd - blockStartInd + 1) 0
      let order := collectOrder blockStartInd blockEndInd side
      let masks ←
        order.foldlM (info.collectTask side blockStartInd blockEndInd barrierOffset) masks
      return (order.reverse.foldl (removeTask side blockStartInd blockEndInd barrierOffset)
        (info, masks)).1

def optimizeBarrierProducers (blockIdx : Nat) : Except Failure (BarrierInfo Queue) :=
  info.optimizeBarrierSide .update blockIdx

def optimizeBarrierConsumers (blockIdx : Nat) : Except Failure (BarrierInfo Queue) :=
  info.optimizeBarrierSide .wait blockIdx

/-! ### Barriers with the same producers -/

def getNumOfSlotsUsedByTask (taskInd : Nat) : Nat :=
  ((info.allTaskOps[taskInd]?).map TaskOp.slotCount).getD 0

/-- Whether the barrier may take the consumers of another one with the same producers. -/
def legalMergeSlotCount (maxVariantCount bar1 bar2 : Nat) : Bool :=
  if !checkValidSlotCount then true
  else
    let addFunc := fun sum taskInd => sum + info.getNumOfSlotsUsedByTask taskInd
    let slotCount := (info.getBarrierProducers bar1).elements.foldl addFunc 0
    let consumers := (info.getBarrierConsumers bar1).union (info.getBarrierConsumers bar2)
    consumers.elements.foldl addFunc slotCount ≤ maxVariantCount

/-- Move the consumers of a barrier to another one and reset the barrier. -/
def mergeBarriers (barInd childBarInd : Nat) : BarrierInfo Queue :=
  ((info.getBarrierConsumers childBarInd).elements.foldl
    (fun info consumerInd => info.addConsumer barInd consumerInd) info).resetBarrier childBarInd

/-- Compare two barriers by their copied producers. The copy of a merged barrier is cleared. -/
def mergeIfSameProducers (maxVariantCount : Nat)
    (barriersRangeVec : List Nat) (state : BarrierInfo Queue × List (List Nat))
    (pair : Nat × Nat) : BarrierInfo Queue × List (List Nat) :=
  let (info, blockBarrierProducerMap) := state
  let barInd := barriersRangeVec.getD pair.1 0
  let childBarInd := barriersRangeVec.getD pair.2 0
  if blockBarrierProducerMap.getD pair.1 [] = blockBarrierProducerMap.getD pair.2 [] &&
      info.legalMergeSlotCount checkValidSlotCount maxVariantCount barInd childBarInd then
    (info.mergeBarriers barInd childBarInd, blockBarrierProducerMap.set pair.2 [])
  else state

/-- The pairs of positions in the order of the two nested loops. -/
def orderedPairs (count : Nat) : List (Nat × Nat) :=
  (List.range count).flatMap fun ind1 =>
    (List.range' (ind1 + 1) (count - (ind1 + 1))).map fun ind2 => (ind1, ind2)

def optimizeBarriersWithSameProducers (maxVariantCount blockIdx : Nat) :
    Except Failure (BarrierInfo Queue) := do
  let barriersRangeVec ← info.getBarriersForTaskBlock blockIdx true false .update
  if barriersRangeVec.isEmpty then return info
  else if info.getNumOfVirtualBarriers - 1 < barriersRangeVec.headD 0 then
    .error (.invalidBarrierRange (barriersRangeVec.headD 0))
  else if info.getNumOfVirtualBarriers - 1 < barriersRangeVec.getLastD 0 then
    .error (.invalidBarrierRange (barriersRangeVec.getLastD 0))
  else
    let blockBarrierProducerMap :=
      barriersRangeVec.map fun barInd => (info.getBarrierProducers barInd).elements
    return ((orderedPairs barriersRangeVec.length).foldl
      (mergeIfSameProducers checkValidSlotCount maxVariantCount barriersRangeVec)
      (info, blockBarrierProducerMap)).1

/-! ### The whole optimization -/

def optimizeBlock (maxVariantCount : Nat) (info : BarrierInfo Queue)
    (blockIdx : Nat) : Except Failure (BarrierInfo Queue) := do
  let info ← info.optimizeBarrierProducers blockIdx
  let info ← info.optimizeBarriersWithSameProducers checkValidSlotCount maxVariantCount blockIdx
  info.optimizeBarrierConsumers blockIdx

/-- The slots of a barrier are limited by `getBarrierMaxVariantSum`, given here as a number. -/
def optimizeBarriers (maxVariantCount : Nat) : Except Failure (BarrierInfo Queue) :=
  (List.range info.getControlGraphBlockCount).foldlM
    (optimizeBlock checkValidSlotCount maxVariantCount) info

/-! ### Redundant producers and consumers -/

variable {Queue : Type} {info : BarrierInfo Queue} {side : Side}

/-! ### Neighbours -/

/-- The second task is at the other side of a barrier of the first one. -/
def Neighbour (info : BarrierInfo Queue) (side : Side) (task other : Nat) : Prop :=
  ∃ barrier, (info.table side).Linked barrier task ∧
    (info.table side.opposite).Linked barrier other

variable {task other : Nat}

theorem mem_neighbours (valid : info.Valid) :
    other ∈ info.neighbours side task ↔ info.Neighbour side task other := by
  unfold neighbours Neighbour
  simp only [mem_flatMap, mem_elements, valid.mirrored side _ task]
  rfl

theorem neighbour_wait : info.Neighbour .wait task other ↔ info.Controls other task :=
  exists_congr fun _ => and_comm

theorem indexOrdered_iff : info.IndexOrdered ↔ Reachability.Increasing info.Controls :=
  ⟨fun ordered _ _ ⟨barrier, updated, waited⟩ => ordered barrier _ _ updated waited,
    fun increasing barrier _ _ updated waited => increasing ⟨barrier, updated, waited⟩⟩

theorem IndexOrdered.lt (ordered : info.IndexOrdered) {child : Nat}
    (controls : info.Controls task child) : task < child :=
  indexOrdered_iff.mp ordered controls

/-! ### The block of a pass -/

/-- The masks of a pass have a bit for every barrier of every task in the range. -/
structure Window (info : BarrierInfo Queue) (side : Side) (lower upper offset width : Nat) :
    Prop where
  inside : upper < info.getNumOfTasks
  covers : ∀ {task barrier : Nat}, lower ≤ task → task ≤ upper →
    (info.table side).Linked barrier task → offset ≤ barrier ∧ barrier < offset + width
  fits : offset + width ≤ info.getNumOfVirtualBarriers

variable {lower upper : Nat}

theorem mem_taskRange : task ∈ taskRange lower upper ↔ lower ≤ task ∧ task ≤ upper := by
  unfold taskRange
  rw [mem_range'_1]
  omega

theorem mem_collectOrder : task ∈ collectOrder lower upper side ↔ lower ≤ task ∧ task ≤ upper := by
  cases side with
  | update => exact mem_reverse.trans mem_taskRange
  | wait => exact mem_taskRange

theorem inRange_iff {low high val : Nat} : inRange low high val = true ↔ low ≤ val ∧ val ≤
    high := by
  unfold inRange
  rw [Bool.and_eq_true, decide_eq_true_eq, decide_eq_true_eq]

/-- Barriers are collected for a task after they are collected for its neighbours. -/
theorem collectOrder_pairwise (side : Side) (ordered : info.IndexOrdered) (lower upper : Nat) :
    (collectOrder lower upper side).Pairwise fun task later =>
      task ≠ later ∧ ¬ info.Neighbour side task later := by
  have sorted : (taskRange lower upper).Pairwise (· < ·) := pairwise_lt_range'
  cases side with
  | update =>
    refine pairwise_reverse.mpr (sorted.imp fun {smaller larger} less => ?_)
    exact ⟨less.ne', fun controls => lt_asymm less (ordered.lt controls)⟩
  | wait =>
    refine sorted.imp fun {smaller larger} less => ?_
    exact ⟨less.ne, fun neighbour => lt_asymm less (ordered.lt (neighbour_wait.mp neighbour))⟩

theorem not_neighbour_self (ordered : info.IndexOrdered) (task : Nat) :
    ¬ info.Neighbour side task task := by
  cases side with
  | update => exact fun controls => lt_irrefl task (ordered.lt controls)
  | wait => exact fun neighbour => lt_irrefl task (ordered.lt (neighbour_wait.mp neighbour))

section Pass

variable {lower upper offset width : Nat}

/-- The barriers of the second task are collected for the first one, unless that is a sync point
at the outer bound. -/
def Follows (info : BarrierInfo Queue) (side : Side) (lower upper task other : Nat) : Prop :=
  ¬ (task = outerBound lower upper side ∧ info.isSyncPoint task = true) ∧
    info.Neighbour side task other

/-- The barriers collected for a task. -/
def Collected (info : BarrierInfo Queue) (side : Side) (lower upper task barrier : Nat) : Prop :=
  ∃ last, ReflTransGen (info.Follows side lower upper) task last ∧
    (info.table side).Linked barrier last

theorem collected_iff {barrier : Nat} :
    info.Collected side lower upper task barrier ↔ (info.table side).Linked barrier task ∨
      ∃ other, info.Follows side lower upper task other ∧
        info.Collected side lower upper other barrier := by
  constructor
  · rintro ⟨last, path, linked⟩
    rcases ReflTransGen.cases_head path with same | ⟨other, step, rest⟩
    · exact .inl (same ▸ linked)
    · exact .inr ⟨other, step, last, rest, linked⟩
  · rintro (linked | ⟨other, step, last, rest, linked⟩)
    · exact ⟨task, .refl, linked⟩
    · exact ⟨last, .head step rest, linked⟩

section

variable (window : info.Window side lower upper offset width) (valid : info.Valid)
include window valid

theorem getLsbD_setBarrierMask (below : lower ≤ task) (above : task ≤ upper) (mask : BitVec width)
    (idx : Nat) : (setBarrierMask mask ((info.table side).column task) offset).getLsbD idx = true ↔
      mask.getLsbD idx = true ∨ (info.table side).Linked (idx + offset) task := by
  unfold setBarrierMask
  rw [BitMask.getLsbD_foldl_set fun bar => bar - offset]
  refine or_congr_right ⟨?_, fun linked => ?_⟩
  · rintro ⟨_, bar, mem, rfl⟩
    have linked := (valid.mirrored side bar task).mp mem
    rw [Nat.sub_add_cancel (window.covers below above linked).1]
    exact linked
  · have bounds := window.covers below above linked
    exact ⟨by omega, idx + offset, (valid.mirrored side _ task).mpr linked,
      Nat.add_sub_cancel idx offset⟩

/-! ### Collecting -/

theorem collectTask_spec (below : lower ≤ task) (above : task ≤ upper)
    {masks after : List (BitVec width)}
    (res : info.collectTask side lower upper offset masks task = .ok after) :
    (∀ other, info.Follows side lower upper task other → lower ≤ other ∧ other ≤ upper) ∧
    ∃ mask, after = masks.set (task - lower) mask ∧ ∀ idx, mask.getLsbD idx = true ↔
      (masks.getD (task - lower) 0).getLsbD idx = true ∨
      (info.table side).Linked (idx + offset) task ∨
      ∃ other, info.Follows side lower upper task other ∧
        (masks.getD (other - lower) 0).getLsbD idx = true := by
  unfold collectTask at res
  split at res
  · next skipped =>
    rw [Bool.and_eq_true, decide_eq_true_eq] at skipped
    refine ⟨fun other step => absurd skipped step.1, _, (Except.ok.inj res).symm, ?_⟩
    intro idx
    rw [getLsbD_setBarrierMask window valid below above]
    refine or_congr_right (or_iff_left ?_).symm
    exact fun ⟨_, step, _⟩ => step.1 skipped
  · next regular =>
    rw [Bool.and_eq_true, decide_eq_true_eq] at regular
    obtain ⟨mask, joined, finished⟩ := Run.bind_ok res
    obtain ⟨ranged, bits⟩ := BitMask.foldlM_join _ _ _ joined
    have follows : ∀ other, other ∈ info.neighbours side task ↔
        info.Follows side lower upper task other := fun other =>
      (mem_neighbours valid).trans (and_iff_right regular).symm
    refine ⟨fun other step => inRange_iff.mp (ranged other ((follows other).mpr step)), mask,
      (Except.ok.inj finished).symm, ?_⟩
    intro idx
    rw [bits idx, getLsbD_setBarrierMask window valid below above, or_assoc]
    refine or_congr_right (or_congr_right (exists_congr fun other => ?_))
    rw [follows other]

/-- Where a prefix of the tasks is collected and the others are not. -/
structure CollectedUpTo (info : BarrierInfo Queue) (side : Side) (lower upper offset : Nat)
    (finished rest : List Nat) (masks : List (BitVec width)) : Prop where
  length : masks.length = upper - lower + 1
  ranged : ∀ task ∈ finished, ∀ other, info.Follows side lower upper task other →
    lower ≤ other ∧ other ≤ upper
  finished : ∀ task ∈ finished, ∀ idx, (masks.getD (task - lower) 0).getLsbD idx = true ↔
    info.Collected side lower upper task (idx + offset)
  rest : ∀ task ∈ rest, masks.getD (task - lower) 0 = 0

theorem collect_spec (ordered : info.IndexOrdered) : ∀ (rest finished : List Nat)
      {masks after : List (BitVec width)},
    collectOrder lower upper side = finished ++ rest →
    CollectedUpTo info side lower upper offset finished rest masks →
    rest.foldlM (info.collectTask side lower upper offset) masks = .ok after →
    CollectedUpTo info side lower upper offset (finished ++ rest) [] after := by
  intro rest
  induction rest with
  | nil =>
    intro finished masks after _ upTo res
    cases res
    rw [append_nil]
    exact upTo
  | cons task rest ih =>
    intro finished masks after order upTo res
    obtain ⟨next, step, res⟩ := Run.bind_ok res
    have mem : ∀ other ∈ finished ++ task :: rest, lower ≤ other ∧ other ≤ upper :=
      fun other inOrder => mem_collectOrder.mp (order ▸ inOrder)
    have taskBounds := mem task (mem_append_right _ mem_cons_self)
    have apart := collectOrder_pairwise side ordered lower upper
    rw [order, pairwise_append, pairwise_cons] at apart
    obtain ⟨_, ⟨headApart, _⟩, crossing⟩ := apart
    obtain ⟨ranged, mask, equal, bits⟩ :=
      collectTask_spec window valid taskBounds.1 taskBounds.2 step
    have inside : task - lower < masks.length := by
      rw [upTo.length]
      omega
    -- The neighbours of the task in the range have been collected before.
    have before : ∀ other, info.Follows side lower upper task other → other ∈ finished := by
      intro other follows
      have inOrder : other ∈ finished ++ task :: rest := by
        rw [← order]
        exact mem_collectOrder.mpr (ranged other follows)
      rcases mem_append.mp inOrder with early | late
      · exact early
      · rcases mem_cons.mp late with same | late
        · exact absurd (same ▸ follows.2) (not_neighbour_self ordered task)
        · exact absurd follows.2 (headApart other late).2
    have untouched : ∀ other, other ∈ finished ∨ other ∈ rest →
        next.getD (other - lower) 0 = masks.getD (other - lower) 0 := by
      intro other place
      have bounds : lower ≤ other ∧ other ≤ upper := mem other <| place.elim
        (mem_append_left _) fun late => mem_append_right _ (mem_cons_of_mem _ late)
      have different : task ≠ other := by
        rcases place with early | late
        · exact (crossing other early task mem_cons_self).1.symm
        · exact (headApart other late).1
      rw [equal, getD_eq_getElem?_getD, getD_eq_getElem?_getD, getElem?_set_ne (by omega)]
    have split : finished ++ task :: rest = (finished ++ [task]) ++ rest := by simp
    rw [split] at order ⊢
    refine ih (finished ++ [task]) order ⟨?_, ?_, ?_, ?_⟩ res
    · rw [equal, length_set]
      exact upTo.length
    · intro other place
      rcases mem_append.mp place with early | same
      · exact upTo.ranged other early
      · rw [mem_singleton.mp same]
        exact ranged
    · intro other place idx
      rcases mem_append.mp place with early | same
      · rw [untouched other (.inl early)]
        exact upTo.finished other early idx
      · rw [mem_singleton.mp same, equal, getD_eq_getElem?_getD,
          getElem?_set_self inside, Option.getD_some, bits idx,
          upTo.rest task mem_cons_self, collected_iff]
        have clear : ¬ (0 : BitVec width).getLsbD idx = true := by simp
        rw [or_iff_right clear]
        refine or_congr_right (exists_congr fun follower => and_congr_right fun follows => ?_)
        exact upTo.finished follower (before follower follows) idx
    · intro other place
      rw [untouched other (.inr place)]
      exact upTo.rest other (mem_cons_of_mem _ place)

end

/-! ### Removing -/

/-- The barrier of a task is collected for a neighbour in the block. -/
def Redundant (info : BarrierInfo Queue) (side : Side) (lower upper barrier task : Nat) : Prop :=
  ∃ other, info.Neighbour side task other ∧ (lower ≤ other ∧ other ≤ upper) ∧
    info.Collected side lower upper other barrier

theorem mem_setBits {mask : BitVec width} {idx : Nat} :
    idx ∈ setBits mask ↔ mask.getLsbD idx = true := by
  unfold setBits
  rw [mem_filter, mem_range]
  exact and_iff_right_of_imp BitVec.lt_of_getLsbD

/-- The two states agree on everything but the tables. -/
structure SameTasks (info after : BarrierInfo Queue) : Prop where
  allTaskOps : after.allTaskOps = info.allTaskOps
  blockSize : after.controlGraphBlockSize = info.controlGraphBlockSize
  syncTasksIds : after.syncTasksIds = info.syncTasksIds
  barriers : after.getNumOfVirtualBarriers = info.getNumOfVirtualBarriers

theorem SameTasks.refl (info : BarrierInfo Queue) : info.SameTasks info := ⟨rfl, rfl, rfl, rfl⟩

theorem SameTasks.trans {between after : BarrierInfo Queue} (one : info.SameTasks between)
    (two : between.SameTasks after) : info.SameTasks after :=
  ⟨two.allTaskOps.trans one.allTaskOps, two.blockSize.trans one.blockSize,
    two.syncTasksIds.trans one.syncTasksIds, two.barriers.trans one.barriers⟩

theorem SameTasks.tasks {after : BarrierInfo Queue} (same : info.SameTasks after) :
    after.getNumOfTasks = info.getNumOfTasks :=
  congrArg length same.allTaskOps

/-- Where the redundant barriers of a prefix of the tasks are removed. -/
structure RemovedUpTo (info : BarrierInfo Queue) (side : Side) (lower upper : Nat)
    (marked : List (BitVec width)) (finished rest : List Nat)
    (state : BarrierInfo Queue × List (BitVec width)) : Prop where
  valid : state.1.Valid
  same : info.SameTasks state.1
  opposite : state.1.table side.opposite = info.table side.opposite
  linked : ∀ barrier task, (state.1.table side).Linked barrier task ↔
    (info.table side).Linked barrier task ∧
      ¬ (task ∈ finished ∧ info.Redundant side lower upper barrier task)
  rest : ∀ task ∈ rest, state.2.getD (task - lower) 0 = marked.getD (task - lower) 0

section Removal

variable {marked : List (BitVec width)} {finished rest : List Nat} {task : Nat}
  {state : BarrierInfo Queue × List (BitVec width)}

theorem RemovedUpTo.neighbour_iff
    (upTo : RemovedUpTo info side lower upper marked finished rest state)
    (fresh : task ∉ finished) :
    other ∈ state.1.neighbours side task ↔ info.Neighbour side task other := by
  rw [mem_neighbours upTo.valid]
  refine exists_congr fun barrier => ?_
  rw [upTo.opposite, upTo.linked]
  refine and_congr_left fun _ => and_iff_left fun removed => fresh removed.1

section

variable (window : info.Window side lower upper offset width)
  (collected : CollectedUpTo info side lower upper offset (collectOrder lower upper side) [] marked)
  (ordered : info.IndexOrdered)
include window collected ordered

theorem removeTask_spec (order : (collectOrder lower upper side).reverse = finished ++ task :: rest)
    (upTo : RemovedUpTo info side lower upper marked finished (task :: rest) state) :
    RemovedUpTo info side lower upper marked (finished ++ [task]) rest
      (removeTask side lower upper offset state task) := by
  obtain ⟨current, masks⟩ := state
  have inOrder : ∀ other, other ∈ finished ++ task :: rest ↔ lower ≤ other ∧ other ≤ upper := by
    intro other
    rw [← order, mem_reverse]
    exact mem_collectOrder
  have bounds := (inOrder task).mp (mem_append_right _ mem_cons_self)
  have apart := pairwise_reverse.mpr (collectOrder_pairwise side ordered lower upper)
  rw [order, pairwise_append, pairwise_cons] at apart
  obtain ⟨_, ⟨headApart, _⟩, crossing⟩ := apart
  have fresh : task ∉ finished := fun early => (crossing task early task mem_cons_self).1 rfl
  have bits : ∀ other, lower ≤ other ∧ other ≤ upper → ∀ idx,
      (marked.getD (other - lower) 0).getLsbD idx = true ↔
        info.Collected side lower upper other (idx + offset) := fun other inside idx =>
    collected.finished other (mem_collectOrder.mpr inside) idx
  -- The neighbours in the range have not been reduced yet.
  have later : ∀ other, info.Neighbour side task other → lower ≤ other ∧ other ≤ upper →
      other ∈ rest := by
    intro other neighbour inside
    rcases mem_append.mp ((inOrder other).mpr inside) with early | late
    · exact absurd neighbour (crossing other early task mem_cons_self).2
    · rcases mem_cons.mp late with same | late
      · exact absurd (same ▸ neighbour) (not_neighbour_self ordered task)
      · exact late
  let mask := (current.neighbours side task).foldl (fun mask other =>
    if inRange lower upper other then mask &&& ~~~ masks.getD (other - lower) 0 else mask)
    (masks.getD (task - lower) 0)
  let target : TaskSet := .ofList ((setBits mask).map fun bar => bar + offset)
  have maskBits : ∀ idx, mask.getLsbD idx = true ↔
      (info.table side).Linked (idx + offset) task ∧
        ¬ info.Redundant side lower upper (idx + offset) task := by
    intro idx
    rw [BitMask.getLsbD_foldl_clear, upTo.rest task mem_cons_self, bits task bounds]
    constructor
    · rintro ⟨collectedHere, unmarked⟩
      have irredundant : ¬ info.Redundant side lower upper (idx + offset) task := by
        rintro ⟨other, neighbour, inside, found⟩
        have clear := unmarked other ((upTo.neighbour_iff fresh).mpr neighbour)
          (inRange_iff.mpr inside)
        rw [upTo.rest other (mem_cons_of_mem _ (later other neighbour inside)),
          ← Bool.not_eq_true, bits other inside] at clear
        exact clear found
      refine ⟨(collected_iff.mp collectedHere).resolve_right ?_, irredundant⟩
      rintro ⟨other, follows, found⟩
      exact irredundant ⟨other, follows.2,
        collected.ranged task (mem_collectOrder.mpr bounds) other follows, found⟩
    · rintro ⟨linked, irredundant⟩
      refine ⟨collected_iff.mpr (.inl linked), fun other mem inside => ?_⟩
      have neighbour := (upTo.neighbour_iff fresh).mp mem
      have within := inRange_iff.mp inside
      rw [upTo.rest other (mem_cons_of_mem _ (later other neighbour within)),
        ← Bool.not_eq_true, bits other within]
      exact fun found => irredundant ⟨other, neighbour, within, found⟩
  have memTarget : ∀ barrier, barrier ∈ target ↔ (info.table side).Linked barrier task ∧
      ¬ info.Redundant side lower upper barrier task := by
    intro barrier
    rw [mem_ofList, mem_map]
    constructor
    · rintro ⟨idx, mem, rfl⟩
      exact (maskBits idx).mp (mem_setBits.mp mem)
    · intro kept
      have cover := (window.covers bounds.1 bounds.2 kept.1).1
      refine ⟨barrier - offset, mem_setBits.mpr ((maskBits _).mpr ?_), Nat.sub_add_cancel cover⟩
      rw [Nat.sub_add_cancel cover]
      exact kept
  have targetInside : ∀ barrier ∈ target, barrier < current.getNumOfVirtualBarriers := by
    intro barrier mem
    have cover := (window.covers bounds.1 bounds.2 ((memTarget barrier).mp mem).1).2
    rw [upTo.same.barriers]
    exact cover.trans_le window.fits
  have taskInside : task < current.getNumOfTasks := by
    rw [upTo.same.tasks]
    exact bounds.2.trans_lt window.inside
  show RemovedUpTo info side lower upper marked (finished ++ [task]) rest
    (current.modifyTable side (·.setColumn task target), masks.set (task - lower) mask)
  refine ⟨upTo.valid.setColumn side targetInside taskInside, ⟨?_, ?_, ?_, ?_⟩, ?_, ?_, ?_⟩
  · rw [allTaskOps_modifyTable]
    exact upTo.same.allTaskOps
  · rw [controlGraphBlockSize_modifyTable]
    exact upTo.same.blockSize
  · rw [syncTasksIds_modifyTable]
    exact upTo.same.syncTasksIds
  · rw [getNumOfVirtualBarriers_modifyTable (length_rows_setColumn _)]
    exact upTo.same.barriers
  · rw [table_modifyTable_opposite]
    exact upTo.opposite
  · intro barrier other
    rw [table_modifyTable_self, linked_setColumn (upTo.valid.mirrored side) target
      (fun idx mem => by rw [upTo.valid.barriers side]; exact targetInside idx mem)]
    split
    · next same =>
      rw [same, memTarget]
      simp
    · next different => rw [upTo.linked, mem_append, mem_singleton, or_iff_left different]
  · intro other late
    have different := (headApart other late).1
    have inside := (inOrder other).mp (mem_append_right _ (mem_cons_of_mem _ late))
    rw [← upTo.rest other (mem_cons_of_mem _ late), getD_eq_getElem?_getD,
      getD_eq_getElem?_getD, getElem?_set_ne (by omega)]

theorem remove_spec : ∀ (rest finished : List Nat)
    {state : BarrierInfo Queue × List (BitVec width)},
    (collectOrder lower upper side).reverse = finished ++ rest →
    RemovedUpTo info side lower upper marked finished rest state →
    RemovedUpTo info side lower upper marked (finished ++ rest) []
      (rest.foldl (removeTask side lower upper offset) state) := by
  intro rest
  induction rest with
  | nil =>
    intro finished state _ upTo
    rw [append_nil]
    exact upTo
  | cons task rest ih =>
    intro finished state order upTo
    have split : finished ++ task :: rest = (finished ++ [task]) ++ rest := by simp
    have step := removeTask_spec window collected ordered order upTo
    rw [split] at order ⊢
    exact ih (finished ++ [task]) order step

end

end Removal

end Pass

end NpuPlugin.BarrierInfo
