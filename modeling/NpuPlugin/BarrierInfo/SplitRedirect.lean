/-
This file proves what the third step of a split does to a barrier between blocks: producers and
consumers outside of its first block move to the barriers of the sync tasks around their block or to
a new barrier.
-/

import NpuPlugin.BarrierInfo.Split

namespace NpuPlugin.BarrierInfo

open IncidenceTable List SmallSet

variable {Queue : Type} {info : BarrierInfo Queue} {blockSize : Nat}

/-- The barrier found as the wait barrier of the sync task of a block. For the last block, which
has no sync task, it is barrier 0. -/
def waitOf (info : BarrierInfo Queue) (blockSize block : Nat) : Nat :=
  if block < info.lastBlock blockSize then info.getNumOfVirtualBarriers + 2 * block else 0

variable {state after : SplitState Queue} {fresh fresh' : Nat}
  {unproduces produces unconsumes consumes unproduces' produces' unconsumes' consumes' :
    Nat → Nat → Prop}

theorem Splitting.waitBarInd_eq (pos : 0 < blockSize) (splitting : Splitting info blockSize state)
    (block : Nat) : state.waitBarInd (syncTask blockSize block) = info.waitOf blockSize block := by
  unfold waitOf
  split
  · next before => exact splitting.wait block before
  · next final =>
    refine splitting.missing _ fun other before same => final ?_
    rw [syncTask_inj pos same]
    exact before

/-- A change of the maps that removes and adds links and adds barriers. -/
structure Changes (info : BarrierInfo Queue) (blockSize : Nat) (state after : SplitState Queue)
    (fresh : Nat) (unproduces produces unconsumes consumes : Nat → Nat → Prop) : Prop where
  splitting : Splitting info blockSize after
  barriers : after.info.getNumOfVirtualBarriers = state.info.getNumOfVirtualBarriers + fresh
  updates : ∀ barrier task, after.info.updates.Linked barrier task ↔
    state.info.updates.Linked barrier task ∧ ¬ unproduces barrier task ∨ produces barrier task
  waits : ∀ barrier task, after.info.waits.Linked barrier task ↔
    state.info.waits.Linked barrier task ∧ ¬ unconsumes barrier task ∨ consumes barrier task

theorem Changes.adds {state between after : SplitState Queue} {fresh : Nat}
    {unproduces produces unconsumes consumes produces' consumes' : Nat → Nat → Prop}
    (changes : Changes info blockSize state between fresh unproduces produces unconsumes consumes)
    (adds : Adds info blockSize between after produces' consumes') :
    Changes info blockSize state after fresh unproduces
      (fun barrier task => produces barrier task ∨ produces' barrier task) unconsumes
      (fun barrier task => consumes barrier task ∨ consumes' barrier task) :=
  ⟨adds.splitting, adds.barriers.trans changes.barriers,
    fun barrier task => by rw [adds.updates, changes.updates, or_assoc],
    fun barrier task => by rw [adds.waits, changes.waits, or_assoc]⟩

/-- A change after another one, where the tasks that it unlinks were not linked by the first. -/
theorem Changes.trans {between : SplitState Queue}
    (first : Changes info blockSize state between fresh unproduces produces unconsumes consumes)
    (second : Changes info blockSize between after fresh' unproduces' produces' unconsumes'
      consumes')
    (keepProducers : ∀ barrier task, produces barrier task → ¬ unproduces' barrier task)
    (keepConsumers : ∀ barrier task, consumes barrier task → ¬ unconsumes' barrier task) :
    Changes info blockSize state after (fresh + fresh')
      (fun barrier task => unproduces barrier task ∨ unproduces' barrier task)
      (fun barrier task => produces barrier task ∨ produces' barrier task)
      (fun barrier task => unconsumes barrier task ∨ unconsumes' barrier task)
      (fun barrier task => consumes barrier task ∨ consumes' barrier task) := by
  refine ⟨second.splitting, ?_, fun barrier task => ?_, fun barrier task => ?_⟩
  · rw [second.barriers, first.barriers, Nat.add_assoc]
  · rw [second.updates, first.updates]
    tauto
  · rw [second.waits, first.waits]
    tauto

theorem Changes.congr
    (changes : Changes info blockSize state after fresh unproduces produces unconsumes consumes)
    (count : fresh = fresh')
    (first : ∀ barrier task, unproduces barrier task ↔ unproduces' barrier task)
    (second : ∀ barrier task, produces barrier task ↔ produces' barrier task)
    (third : ∀ barrier task, unconsumes barrier task ↔ unconsumes' barrier task)
    (fourth : ∀ barrier task, consumes barrier task ↔ consumes' barrier task) :
    Changes info blockSize state after fresh' unproduces' produces' unconsumes' consumes' :=
  ⟨changes.splitting, count ▸ changes.barriers,
    fun barrier task => by rw [changes.updates, first, second],
    fun barrier task => by rw [changes.waits, third, fourth]⟩

section Group

variable {state : SplitState Queue} {barInd lastBlock : Nat}
  {barConsBlockTasksMap : Std.TreeMap Nat TaskSet} {group : Nat × TaskSet}

/-- The group gets a new barrier: it is the last one that produces, and its block consumes. -/
def IsNew (lastBlock : Nat) (barConsBlockTasksMap : Std.TreeMap Nat TaskSet)
    (group : Nat × TaskSet) : Prop :=
  group.1 = lastBlock ∧ group.1 ∈ barConsBlockTasksMap

section

variable (splitting : Splitting info blockSize state)
include splitting

theorem removeProducers_changes (barInd : Nat) (tasks : TaskSet) :
    Changes info blockSize state { state with info := state.info.removeProducers barInd tasks } 0
      (fun barrier task => barrier = barInd ∧ task ∈ tasks) (fun _ _ => False)
      (fun _ _ => False) fun _ _ => False := by
  refine ⟨splitting.change (splitting.valid.removeProducers tasks) rfl rfl rfl (le_of_eq ?_), ?_,
    fun barrier task => ?_,
    fun barrier task => by simp only [not_false_eq_true, and_true, or_false]; rfl⟩
  · exact (length_rows_unlinkAll _).symm
  · exact length_rows_unlinkAll _
  · rw [or_false]
    exact linked_unlinkAll _

theorem removeConsumers_changes (barInd : Nat) (tasks : TaskSet) :
    Changes info blockSize state { state with info := state.info.removeConsumers barInd tasks } 0
      (fun _ _ => False) (fun _ _ => False)
      (fun barrier task => barrier = barInd ∧ task ∈ tasks) fun _ _ => False := by
  refine ⟨splitting.change (splitting.valid.removeConsumers tasks) rfl rfl rfl le_rfl, rfl,
    fun barrier task => by simp only [not_false_eq_true, and_true, or_false]; rfl,
    fun barrier task => ?_⟩
  rw [or_false]
  exact linked_unlinkAll _

theorem newBarrier_changes {newBarInd : Nat} (new : newBarInd = state.info.getNumOfVirtualBarriers)
    {producers consumers : TaskSet}
    (producersInside : ∀ task ∈ producers, task < info.getNumOfTasks)
    (consumersInside : ∀ task ∈ consumers, task < info.getNumOfTasks) :
    Changes info blockSize state
      ⟨(state.info.addNewBarrier.addProducers newBarInd producers).addConsumers newBarInd consumers,
        state.syncTaskWaitAndUpdateBarrierIndMap⟩ 1
      (fun _ _ => False) (fun barrier task => barrier = newBarInd ∧ task ∈ producers)
      (fun _ _ => False) fun barrier task => barrier = newBarInd ∧ task ∈ consumers := by
  let larger : SplitState Queue :=
    ⟨state.info.addNewBarrier, state.syncTaskWaitAndUpdateBarrierIndMap⟩
  have rows : larger.info.getNumOfVirtualBarriers = state.info.getNumOfVirtualBarriers + 1 :=
    length_rows_addRow
  have splittingLarger : Splitting info blockSize larger :=
    splitting.change splitting.valid.addNewBarrier rfl rfl rfl
      (rows ▸ Nat.le_succ _)
  have added : Changes info blockSize state larger 1
      (fun _ _ => False) (fun _ _ => False) (fun _ _ => False) fun _ _ => False := by
    refine ⟨splittingLarger, rows, fun barrier task => ?_, fun barrier task => ?_⟩
    · rw [or_false, not_false_eq_true, and_true]
      exact linked_addRow
    · rw [or_false, not_false_eq_true, and_true]
      exact linked_addRow
  have inside : newBarInd < larger.info.getNumOfVirtualBarriers := by omega
  have produced := added.adds (addProducers_adds splittingLarger inside producersInside)
  have stillInside : newBarInd <
      (larger.info.addProducers newBarInd producers).getNumOfVirtualBarriers := by
    rw [produced.barriers]
    omega
  have consumed := produced.adds
    (addConsumers_adds produced.splitting stillInside consumersInside)
  exact consumed.congr rfl (fun _ _ => Iff.rfl) (fun _ _ => by simp) (fun _ _ => Iff.rfl)
    fun _ _ => by simp

end

theorem mem_getSetWithNoSyncTasks (pos : 0 < blockSize) (splitting : Splitting info blockSize state)
    {tasks : TaskSet} (inside : ∀ task ∈ tasks, task < info.getNumOfTasks) (task : Nat) :
    task ∈ getSetWithNoSyncTasks state.info tasks ↔ task ∈ tasks ∧ info.Regular blockSize task := by
  unfold getSetWithNoSyncTasks
  rw [SmallSet.mem_filter]
  refine and_congr_right fun mem => ?_
  let sized : BarrierInfo Queue := { info with controlGraphBlockSize := blockSize }
  have same : state.info.isSyncPoint task = sized.isSyncPoint task := by
    unfold isSyncPoint getNumOfTasks
    rw [splitting.size, splitting.allTaskOps]
  have regular : sized.isSyncPoint task = false ↔ sized.Regular blockSize task :=
    regular_iff pos (inside task mem) rfl
  rw [same, Bool.not_eq_true']
  exact regular

/-- The links that a group of producers gets to the wait barrier of its sync task. -/
def GroupToWait (info : BarrierInfo Queue) (blockSize lastBlock : Nat)
    (barConsBlockTasksMap : Std.TreeMap Nat TaskSet) (group : Nat × TaskSet) (barrier task : Nat) :
    Prop :=
  ¬ IsNew lastBlock barConsBlockTasksMap group ∧
    syncTask blockSize group.1 < info.getNumOfTasks ∧
    barrier = info.waitOf blockSize group.1 ∧ task ∈ group.2 ∧ info.Regular blockSize task

/-- The links of a group to the update barrier of the sync task before its block. -/
def GroupToUpdate (info : BarrierInfo Queue) (blockSize : Nat) (group : Nat × TaskSet)
    (barrier task : Nat) : Prop :=
  barrier = info.getNumOfVirtualBarriers + 2 * (group.1 - 1) + 1 ∧ task ∈ group.2 ∧
    info.Regular blockSize task

/-- A group of tasks of one block after the first one. -/
structure LateGroup (info : BarrierInfo Queue) (blockSize : Nat) (group : Nat × TaskSet) :
    Prop where
  late : 0 < group.1
  bound : group.1 ≤ info.lastBlock blockSize
  block : ∀ task ∈ group.2, task / blockSize = group.1
  inside : ∀ task ∈ group.2, task < info.getNumOfTasks

theorem syncTask_next (pos : 0 < blockSize) {block : Nat} (late : 0 < block) :
    block * blockSize - 1 + blockSize = syncTask blockSize block := by
  have product : 0 < block * blockSize := Nat.mul_pos late pos
  unfold syncTask
  rw [Nat.add_mul, Nat.one_mul]
  omega

theorem linkGroup_adds (group : Nat × TaskSet) (pos : 0 < blockSize)
    (splitting : Splitting info blockSize state) (late : LateGroup info blockSize group) :
    Adds info blockSize state (state.addSyncConsumers (group.1 * blockSize - 1)
        (getSetWithNoSyncTasks state.info group.2))
      (fun _ _ => False) (GroupToUpdate info blockSize group) := by
  have members := mem_getSetWithNoSyncTasks pos splitting late.inside
  rw [syncTask_previous late.late]
  have before : group.1 - 1 < info.lastBlock blockSize := by
    have bound := late.bound
    have pos := late.late
    omega
  refine (addSyncConsumers_adds splitting before fun task mem =>
    late.inside task ((members task).mp mem).1).congr (fun _ _ => Iff.rfl) fun barrier task => ?_
  rw [members]
  exact Iff.rfl

theorem moveProducers_changes (barInd lastBlock : Nat) (pos : 0 < blockSize)
    (blocks : 0 < info.lastBlock blockSize)
    (splitting : Splitting info blockSize state) (late : LateGroup info blockSize group)
    (consumersInside : ∀ task ∈ barConsBlockTasksMap.getD group.1 ∅, task < info.getNumOfTasks) :
    ∃ fresh, (IsNew lastBlock barConsBlockTasksMap group ∧ fresh = 1 ∨
        ¬ IsNew lastBlock barConsBlockTasksMap group ∧ fresh = 0) ∧
      Changes info blockSize state
        (moveProducers blockSize info.getNumOfTasks barInd lastBlock barConsBlockTasksMap
          state group)
        fresh (fun barrier task => barrier = barInd ∧ task ∈ group.2)
        (fun barrier task =>
          GroupToWait info blockSize lastBlock barConsBlockTasksMap group barrier task ∨
          IsNew lastBlock barConsBlockTasksMap group ∧
            barrier = state.info.getNumOfVirtualBarriers ∧ task ∈ group.2)
        (fun _ _ => False)
        (fun barrier task => GroupToUpdate info blockSize group barrier task ∨
          IsNew lastBlock barConsBlockTasksMap group ∧
            barrier = state.info.getNumOfVirtualBarriers ∧
              task ∈ barConsBlockTasksMap.getD group.1 ∅) := by
  have removedChanges := removeProducers_changes splitting barInd group.2
  have members := mem_getSetWithNoSyncTasks pos removedChanges.splitting late.inside
  unfold moveProducers
  dsimp only
  rw [syncTask_next pos late.late]
  by_cases new : IsNew lastBlock barConsBlockTasksMap group
  · refine ⟨1, .inl ⟨new, rfl⟩, ?_⟩
    rw [if_neg (by simp [new.1, new.1 ▸ new.2])]
    have moved := removedChanges.trans (newBarrier_changes removedChanges.splitting rfl late.inside
      consumersInside) (by simp) (by simp)
    have same : (state.info.removeProducers barInd group.2).getNumOfVirtualBarriers =
        state.info.getNumOfVirtualBarriers := removedChanges.barriers
    refine (moved.adds (linkGroup_adds group pos moved.splitting late)).congr rfl
      (fun _ _ => iff_of_eq (or_false _)) (fun barrier task => ?_)
      (fun _ _ => iff_of_eq (or_false _)) fun barrier task => ?_
    · simp [new, GroupToWait, same]
    · simp [new, or_comm, same]
  · refine ⟨0, .inr ⟨new, rfl⟩, ?_⟩
    have branch : (decide (group.1 ≠ lastBlock) || !barConsBlockTasksMap.contains group.1) =
        true := by
      rw [Bool.or_eq_true, decide_eq_true_eq, Bool.not_eq_true', ← Bool.not_eq_true,
        Std.TreeMap.contains_iff_mem]
      exact not_and_or.mp new
    rw [if_pos branch]
    by_cases bounded : syncTask blockSize group.1 < info.getNumOfTasks
    · rw [if_pos bounded]
      have moved := removedChanges.adds (addSyncProducers_adds removedChanges.splitting blocks
        (syncTask blockSize group.1) fun task mem => late.inside task
          ((members task).mp mem).1)
      refine (moved.adds (linkGroup_adds group pos moved.splitting late)).congr rfl
        (fun barrier task => Iff.rfl) (fun barrier task => ?_) (fun barrier task => Iff.rfl)
        fun barrier task => ?_
      · rw [members, removedChanges.splitting.waitBarInd_eq pos]
        simp [new, GroupToWait, bounded]
      · simp [new]
    · rw [if_neg bounded]
      refine (removedChanges.adds (linkGroup_adds group pos removedChanges.splitting
        late)).congr rfl
        (fun barrier task => Iff.rfl) (fun barrier task => ?_) (fun barrier task => Iff.rfl)
        fun barrier task => ?_
      · simp [new, GroupToWait, bounded]
      · simp [new]

end Group

/-! ### All groups of a barrier -/

section Groups

variable {barInd lastBlock : Nat} {barConsBlockTasksMap : Std.TreeMap Nat TaskSet}

theorem moveProducers_foldl (barInd lastBlock : Nat) (pos : 0 < blockSize)
    (blocks : 0 < info.lastBlock blockSize)
    (consumersInside : ∀ block, ∀ task ∈ barConsBlockTasksMap.getD block ∅,
      task < info.getNumOfTasks) (groups : List (Nat × TaskSet))
    (late : ∀ group ∈ groups, LateGroup info blockSize group)
    (distinct : groups.Pairwise fun first second => first.1 ≠ second.1)
    (state : SplitState Queue) (splitting : Splitting info blockSize state) :
    ∃ fresh, ((∃ group ∈ groups, IsNew lastBlock barConsBlockTasksMap group) ∧ fresh = 1 ∨
        (∀ group ∈ groups, ¬ IsNew lastBlock barConsBlockTasksMap group) ∧ fresh = 0) ∧
      Changes info blockSize state
        (groups.foldl
          (moveProducers blockSize info.getNumOfTasks barInd lastBlock barConsBlockTasksMap) state)
        fresh (fun barrier task => ∃ group ∈ groups, barrier = barInd ∧ task ∈ group.2)
        (fun barrier task => ∃ group ∈ groups,
          GroupToWait info blockSize lastBlock barConsBlockTasksMap group barrier task ∨
          IsNew lastBlock barConsBlockTasksMap group ∧
            barrier = state.info.getNumOfVirtualBarriers ∧ task ∈ group.2)
        (fun _ _ => False)
        (fun barrier task => ∃ group ∈ groups, GroupToUpdate info blockSize group barrier task ∨
          IsNew lastBlock barConsBlockTasksMap group ∧
            barrier = state.info.getNumOfVirtualBarriers ∧
              task ∈ barConsBlockTasksMap.getD group.1 ∅) := by
  induction groups generalizing state with
  | nil =>
    refine ⟨0, .inr ⟨by simp, rfl⟩, splitting, rfl, fun barrier task => ?_, fun barrier task => ?_⟩
    · simp
    · simp
  | cons head tail ih =>
    rw [pairwise_cons] at distinct
    obtain ⟨freshHead, isNew, first⟩ := moveProducers_changes barInd lastBlock pos blocks
      splitting (late head mem_cons_self)
      (consumersInside head.1)
    obtain ⟨freshTail, someNew, second⟩ := ih
      (forall_mem_cons.mp late).2 distinct.2 _ first.splitting
    have lateHead := late head mem_cons_self
    -- Only one group can get the new barrier.
    have single : ∀ group ∈ tail, IsNew lastBlock barConsBlockTasksMap head →
        ¬ IsNew lastBlock barConsBlockTasksMap group := fun group mem newHead newGroup =>
      distinct.1 group mem (newHead.1.trans newGroup.1.symm)
    -- So a later new barrier gets the same index.
    have idx : ∀ group ∈ tail, IsNew lastBlock barConsBlockTasksMap group →
        (moveProducers blockSize info.getNumOfTasks barInd lastBlock barConsBlockTasksMap state
          head).info.getNumOfVirtualBarriers = state.info.getNumOfVirtualBarriers := by
      intro group mem newGroup
      rw [first.barriers]
      rcases isNew with ⟨newHead, _⟩ | ⟨_, none⟩
      · exact absurd newGroup (single group mem newHead)
      · rw [none, Nat.add_zero]
    refine ⟨freshHead + freshTail, ?_, (first.trans second ?_ (by simp)).congr rfl
      (fun barrier task => ?_) (fun barrier task => ?_) (by simp) fun barrier task => ?_⟩
    · rcases isNew with ⟨newHead, rfl⟩ | ⟨oldHead, rfl⟩
      · rcases someNew with ⟨⟨group, mem, newGroup⟩, _⟩ | ⟨_, rfl⟩
        · exact absurd newGroup (single group mem newHead)
        · exact .inl ⟨⟨head, mem_cons_self, newHead⟩, rfl⟩
      · rcases someNew with ⟨⟨group, mem, newGroup⟩, rfl⟩ | ⟨oldTail, rfl⟩
        · exact .inl ⟨⟨group, mem_cons_of_mem _ mem, newGroup⟩, rfl⟩
        · exact .inr ⟨forall_mem_cons.mpr ⟨oldHead, oldTail⟩, rfl⟩
    · rintro barrier task produced ⟨group, mem, _, inside⟩
      have own : task / blockSize = head.1 := by
        rcases produced with toWait | toNew
        · exact lateHead.block task toWait.2.2.2.1
        · exact lateHead.block task toNew.2.2
      have other := (late group (mem_cons_of_mem _ mem)).block task inside
      exact distinct.1 group mem (own.symm.trans other)
    · simp only [mem_cons, exists_eq_or_imp]
    · simp only [mem_cons, exists_eq_or_imp]
      refine or_congr_right (exists_congr fun group => and_congr_right fun mem =>
        or_congr_right (and_congr_right fun newGroup => ?_))
      rw [idx group mem newGroup]
    · simp only [mem_cons, exists_eq_or_imp]
      refine or_congr_right (exists_congr fun group => and_congr_right fun mem =>
        or_congr_right (and_congr_right fun newGroup => ?_))
      rw [idx group mem newGroup]

theorem removeConsumers_foldl (barInd : Nat) (groups : List (Nat × TaskSet))
    (state : SplitState Queue) (splitting : Splitting info blockSize state) :
    Changes info blockSize state (groups.foldl (removeConsumersOfBlock barInd) state) 0
      (fun _ _ => False) (fun _ _ => False)
      (fun barrier task => ∃ group ∈ groups, barrier = barInd ∧ task ∈ group.2)
      fun _ _ => False := by
  induction groups generalizing state with
  | nil =>
    refine ⟨splitting, rfl, fun barrier task => ?_, fun barrier task => ?_⟩
    · simp
    · simp
  | cons head tail ih =>
    have first := removeConsumers_changes splitting barInd head.2
    refine (first.trans (ih _ first.splitting) (by simp) (by simp)).congr rfl
      (by simp) (by simp) (fun barrier task => ?_) (by simp)
    simp only [mem_cons, exists_eq_or_imp]

end Groups

variable {Queue : Type} (info : BarrierInfo Queue) (blockSize : Nat)

/-! ### The links that a barrier loses and the links that take their place -/

/-- The sync task of the first block of the barrier. -/
def HomeSync (barrier task : Nat) : Prop :=
  ∃ home, info.Touches barrier home ∧ info.InHome blockSize barrier home ∧
    task = syncTask blockSize (home / blockSize)

def HomeProduced (barrier : Nat) : Prop :=
  ∃ producer, info.updates.Linked barrier producer ∧ info.InHome blockSize barrier producer

def NeedsNew (barrier : Nat) : Prop := ∃ task, info.ToNew blockSize barrier task

/-- The producers that the barrier loses. The sync task of its first block stays a producer where
it was the first one listed. -/
def Unproduced (stays : Prop) (barrier task : Nat) : Prop :=
  info.Moved blockSize barrier task ∨ ¬ stays ∧ info.HomeSync blockSize barrier task

/-- The barrier that the second task produces for the first barrier. -/
def Produced (barrier newBarrier other task : Nat) : Prop :=
  other = info.waitOf blockSize (task / blockSize) ∧ info.ToWait blockSize barrier task ∨
    other = newBarrier ∧ info.ToNew blockSize barrier task

def Unconsumed (barrier task : Nat) : Prop :=
  info.waits.Linked barrier task ∧ ¬ info.InHome blockSize barrier task

def Consumed (stays : Prop) (barrier newBarrier other task : Nat) : Prop :=
  other = barrier ∧ ¬ stays ∧ info.HomeSync blockSize barrier task ∨
    other = info.getNumOfVirtualBarriers + 2 * (task / blockSize - 1) + 1 ∧
      info.ToUpdate blockSize barrier task ∨
    other = newBarrier ∧ info.NewConsumer blockSize barrier task

/-- The first block and the last producing block of a barrier, with the tasks sorted by blocks. -/
structure Located (barrier home last : Nat)
    (barProdBlockTasksMap barConsBlockTasksMap : Std.TreeMap Nat TaskSet)
    (producers consumers : List Nat) : Prop where
  produced : Groups blockSize producers barProdBlockTasksMap
  consumed : Groups blockSize consumers barConsBlockTasksMap
  mem_producers : ∀ task, task ∈ producers ↔ info.updates.Linked barrier task
  mem_consumers : ∀ task, task ∈ consumers ↔ info.waits.Linked barrier task
  inHome : ∀ task, info.InHome blockSize barrier task ↔ task / blockSize ≤ home
  home : ∃ task, info.Touches barrier task ∧ task / blockSize = home
  inLast : ∀ task, info.InLastProducing blockSize barrier task ↔ last ≤ task / blockSize
  last : ∃ task, info.updates.Linked barrier task ∧ task / blockSize = last

variable {info} {blockSize}

section Located

variable {barrier home last : Nat}
  {barProdBlockTasksMap barConsBlockTasksMap : Std.TreeMap Nat TaskSet}
  {producers consumers : List Nat}
  (located : info.Located blockSize barrier home last barProdBlockTasksMap barConsBlockTasksMap
    producers consumers)

include located

theorem Located.home_le {task : Nat} (touches : info.Touches barrier task) :
    home ≤ task / blockSize := by
  obtain ⟨first, _, own⟩ := located.home
  have least := (located.inHome first).mpr own.le task touches
  rw [← own]
  exact least

theorem Located.inHome_iff {task : Nat} (touches : info.Touches barrier task) :
    info.InHome blockSize barrier task ↔ task / blockSize = home :=
  (located.inHome task).trans ⟨fun bound => bound.antisymm (located.home_le touches), le_of_eq⟩

theorem Located.homeSync_iff (task : Nat) :
    info.HomeSync blockSize barrier task ↔ task = syncTask blockSize home := by
  constructor
  · rintro ⟨first, touches, inHome, rfl⟩
    rw [(located.inHome_iff touches).mp inHome]
  · rintro rfl
    obtain ⟨first, touches, own⟩ := located.home
    exact ⟨first, touches, (located.inHome_iff touches).mpr own, by rw [own]⟩

theorem Located.inLast_iff {task : Nat} (linked : info.updates.Linked barrier task) :
    info.InLastProducing blockSize barrier task ↔ task / blockSize = last := by
  refine (located.inLast task).trans ⟨fun bound => le_antisymm ?_ bound, ge_of_eq⟩
  obtain ⟨final, _, own⟩ := located.last
  rw [← own]
  exact (located.inLast final).mpr own.ge task linked

theorem Located.moved_iff (task : Nat) :
    info.Moved blockSize barrier task ↔
      info.updates.Linked barrier task ∧ task / blockSize ≠ home :=
  and_congr_right fun linked => not_congr (located.inHome_iff (.inl linked))

theorem Located.consumedIn_iff (block : Nat) :
    info.ConsumedIn blockSize barrier block ↔ block ∈ barConsBlockTasksMap := by
  rw [located.consumed.mem]
  exact exists_congr fun task => and_congr_left fun _ => (located.mem_consumers task).symm

theorem Located.isNew_iff {task : Nat} (linked : info.updates.Linked barrier task)
    {group : Nat × TaskSet} (own : group.1 = task / blockSize) :
    IsNew last barConsBlockTasksMap group ↔
      info.InLastProducing blockSize barrier task ∧
        info.ConsumedIn blockSize barrier (task / blockSize) := by
  unfold IsNew
  rw [own, located.inLast_iff linked, located.consumedIn_iff]

theorem Located.toNew_iff (task : Nat) :
    info.ToNew blockSize barrier task ↔
      (info.updates.Linked barrier task ∧ task / blockSize ≠ home) ∧
        task / blockSize = last ∧ task / blockSize ∈ barConsBlockTasksMap := by
  unfold ToNew
  rw [located.moved_iff, located.consumedIn_iff]
  exact and_congr_right fun moved => and_congr_left fun _ => located.inLast_iff moved.1

theorem Located.produced_iff (newBarrier other task : Nat) :
    (∃ group ∈ otherBlocks home barProdBlockTasksMap,
      GroupToWait info blockSize last barConsBlockTasksMap group other task ∨
        IsNew last barConsBlockTasksMap group ∧ other = newBarrier ∧ task ∈ group.2) ↔
      info.Produced blockSize barrier newBarrier other task := by
  have groups := located.produced.exists_otherBlocks home task (fun block =>
    ¬ (block = last ∧ block ∈ barConsBlockTasksMap) ∧
        syncTask blockSize block < info.getNumOfTasks ∧ other = info.waitOf blockSize block ∧
          info.Regular blockSize task ∨
      (block = last ∧ block ∈ barConsBlockTasksMap) ∧ other = newBarrier)
  rw [located.mem_producers] at groups
  unfold Produced ToWait
  rw [located.toNew_iff, located.moved_iff, located.consumedIn_iff]
  constructor
  · rintro ⟨group, mem, links⟩
    have inside : task ∈ group.2 := links.elim (fun toWait => toWait.2.2.2.1) fun new => new.2.2
    obtain ⟨moved, held⟩ := groups.mp ⟨group, mem, inside, links.imp
      (fun toWait => ⟨toWait.1, toWait.2.1, toWait.2.2.1, toWait.2.2.2.2⟩)
      fun new => ⟨new.1, new.2.1⟩⟩
    refine held.imp (fun toWait => ⟨toWait.2.2.1, moved, ?_, toWait.2.1, toWait.2.2.2⟩)
      fun new => ⟨new.2, moved, new.1⟩
    rw [located.inLast_iff moved.1]
    exact not_and_or.mp toWait.1
  · rintro (⟨rfl, moved, old, bounded, regular⟩ | ⟨rfl, moved, new⟩)
    · rw [located.inLast_iff moved.1] at old
      obtain ⟨group, mem, inside, held⟩ := groups.mpr ⟨moved, .inl
        ⟨not_and_or.mpr old, bounded, rfl, regular⟩⟩
      refine ⟨group, mem, held.imp
        (fun toWait => ⟨toWait.1, toWait.2.1, toWait.2.2.1, inside, toWait.2.2.2⟩)
        fun new => ⟨new.1, new.2, inside⟩⟩
    · obtain ⟨group, mem, inside, held⟩ := groups.mpr ⟨moved, .inr ⟨new, rfl⟩⟩
      refine ⟨group, mem, held.imp
        (fun toWait => ⟨toWait.1, toWait.2.1, toWait.2.2.1, inside, toWait.2.2.2⟩)
        fun new => ⟨new.1, new.2, inside⟩⟩

theorem Located.newConsumer_iff (newBarrier other task : Nat) :
    (∃ group ∈ otherBlocks home barProdBlockTasksMap, IsNew last barConsBlockTasksMap group ∧
      other = newBarrier ∧ task ∈ barConsBlockTasksMap.getD group.1 ∅) ↔
      other = newBarrier ∧ info.NewConsumer blockSize barrier task := by
  constructor
  · rintro ⟨group, mem, new, rfl, inside⟩
    rw [located.consumed.mem_getD, located.mem_consumers] at inside
    obtain ⟨different, _, producer, listed, own⟩ := located.produced.otherBlocks_spec mem
    rw [located.mem_producers] at listed
    refine ⟨rfl, inside.1, producer, ⟨(located.moved_iff producer).mpr ⟨listed, own ▸ different⟩,
      (located.isNew_iff listed own.symm).mp new⟩, own.trans inside.2.symm⟩
  · rintro ⟨rfl, linked, producer, toNew, own⟩
    obtain ⟨moved, new⟩ := (located.toNew_iff producer).mp toNew
    obtain ⟨group, mem, _, isNew, same⟩ := (located.produced.exists_otherBlocks home producer
      (fun block => (block = last ∧ block ∈ barConsBlockTasksMap) ∧
        block = producer / blockSize)).mpr ⟨⟨(located.mem_producers producer).mpr moved.1, moved.2⟩,
          new, rfl⟩
    refine ⟨group, mem, isNew, rfl, ?_⟩
    rw [located.consumed.mem_getD, located.mem_consumers]
    exact ⟨linked, own.symm.trans same.symm⟩

theorem Located.toUpdate_iff (other task : Nat) :
    ((∃ group ∈ otherBlocks home barProdBlockTasksMap,
        GroupToUpdate info blockSize group other task) ∨
      ∃ group ∈ otherBlocks home barConsBlockTasksMap,
        GroupToUpdate info blockSize group other task) ↔
      other = info.getNumOfVirtualBarriers + 2 * (task / blockSize - 1) + 1 ∧
        info.ToUpdate blockSize barrier task := by
  have either : ∀ {list : List Nat} {groups : Std.TreeMap Nat TaskSet},
      Groups blockSize list groups →
        ((∃ group ∈ otherBlocks home groups, GroupToUpdate info blockSize group other task) ↔
          (task ∈ list ∧ task / blockSize ≠ home) ∧
            other = info.getNumOfVirtualBarriers + 2 * (task / blockSize - 1) + 1 ∧
              info.Regular blockSize task) := by
    intro list groups grouped
    refine Iff.trans (exists_congr fun group => and_congr_right fun _ => ?_)
      (grouped.exists_otherBlocks home task (fun block =>
        other = info.getNumOfVirtualBarriers + 2 * (block - 1) + 1 ∧ info.Regular blockSize task))
    exact and_left_comm
  rw [either located.produced, either located.consumed, located.mem_producers,
    located.mem_consumers, ← or_and_right, ← or_and_right, and_left_comm, and_assoc]
  refine and_congr_right fun _ => and_congr_right fun touches => and_congr_left fun _ => ?_
  exact not_congr (located.inHome_iff touches).symm

end Located

/-! ### One barrier between blocks -/

/-- What the third step does to a barrier between blocks. -/
structure Redirected (info : BarrierInfo Queue) (blockSize barrier : Nat)
    (state after : SplitState Queue) (stays : Prop) (fresh : Nat) : Prop where
  kept : stays → ∀ task, info.HomeSync blockSize barrier task → info.updates.Linked barrier task
  left : ¬ stays → ∃ producer, info.updates.Linked barrier producer ∧
    info.InHome blockSize barrier producer ∧ ¬ info.HomeSync blockSize barrier producer
  count : info.NeedsNew blockSize barrier ∧ fresh = 1 ∨
    ¬ info.NeedsNew blockSize barrier ∧ fresh = 0
  changes : Changes info blockSize state after fresh
    (fun other task => other = barrier ∧ info.Unproduced blockSize stays barrier task)
    (info.Produced blockSize barrier state.info.getNumOfVirtualBarriers)
    (fun other task => other = barrier ∧ info.Unconsumed blockSize barrier task)
    (info.Consumed blockSize stays barrier state.info.getNumOfVirtualBarriers)

variable {state : SplitState Queue} {barrier task home : Nat}
  {barProdBlockTasksMap barConsBlockTasksMap : Std.TreeMap Nat TaskSet}
  {producers consumers : List Nat}

theorem swapSync_changes (splitting : Splitting info blockSize state)
    (inside : barrier < state.info.getNumOfVirtualBarriers)
    (taskInside : task < info.getNumOfTasks) :
    Changes info blockSize state
      { state with info := (state.info.removeProducer barrier task).addConsumer barrier task } 0
      (fun other node => other = barrier ∧ node = task) (fun _ _ => False)
      (fun _ _ => False) fun other node => other = barrier ∧ node = task := by
  have rows : (state.info.removeProducer barrier task).getNumOfVirtualBarriers =
      state.info.getNumOfVirtualBarriers := length_rows_unlink
  have removed : Changes info blockSize state
      { state with info := state.info.removeProducer barrier task } 0
      (fun other node => other = barrier ∧ node = task) (fun _ _ => False)
      (fun _ _ => False) fun _ _ => False := by
    refine ⟨splitting.change splitting.valid.removeProducer rfl rfl rfl rows.ge, rows,
      fun other node => ?_, fun other node => ?_⟩
    · rw [or_false]
      exact linked_unlink
    · rw [or_false, not_false_eq_true, and_true]
      rfl
  have added := removed.adds (addConsumer_adds removed.splitting (inside.trans_eq rows.symm)
    taskInside)
  exact added.congr rfl (by simp) (by simp) (by simp) (by simp)

theorem exists_mem_and_left {Item : Type} {items : List Item} {fixed : Prop} {holds : Item → Prop} :
    (∃ item ∈ items, fixed ∧ holds item) ↔ fixed ∧ ∃ item ∈ items, holds item := by
  rw [← exists_and_left]
  exact exists_congr fun item => and_left_comm

theorem optionalSwap_changes (splitting : Splitting info blockSize state) (condition : Prop)
    [Decidable condition] (inside : barrier < state.info.getNumOfVirtualBarriers)
    (taskInside : task < info.getNumOfTasks) :
    Changes info blockSize state
      (if condition then
        { state with info := (state.info.removeProducer barrier task).addConsumer barrier task }
      else state) 0
      (fun other node => other = barrier ∧ condition ∧ node = task) (fun _ _ => False)
      (fun _ _ => False) fun other node => other = barrier ∧ condition ∧ node = task := by
  by_cases holds : condition
  · rw [if_pos holds]
    exact (swapSync_changes splitting inside taskInside).congr rfl (by simp [holds]) (by simp)
      (by simp) (by simp [holds])
  · rw [if_neg holds]
    exact ⟨splitting, rfl, by simp [holds], by simp [holds]⟩

theorem Located.lateGroup {last : Nat} {list : List Nat}
    (located : info.Located blockSize barrier home last
      barProdBlockTasksMap barConsBlockTasksMap producers consumers)
    (tasksInside : ∀ task, info.Touches barrier task → task < info.getNumOfTasks)
    {groups : Std.TreeMap Nat TaskSet} (grouped : Groups blockSize list groups)
    (touches : ∀ task ∈ list, info.Touches barrier task) {group : Nat × TaskSet}
    (mem : group ∈ otherBlocks home groups) : LateGroup info blockSize group := by
  obtain ⟨different, inside, task, listed, own⟩ := grouped.otherBlocks_spec mem
  have later := located.home_le (touches task listed)
  have bound := div_le_lastBlock blockSize (tasksInside task (touches task listed))
  rw [own] at later bound
  exact ⟨(Nat.zero_le home).trans_lt (lt_of_le_of_ne later different.symm), bound,
    fun task mem => (inside task mem).2,
    fun task mem => tasksInside task (touches task (inside task mem).1)⟩

theorem redirectBarrier_spec (pos : 0 < blockSize) (splitting : Splitting info blockSize state)
    (located : info.Located blockSize barrier home
      (barProdBlockTasksMap.toList.getLastD (0, ∅)).1 barProdBlockTasksMap barConsBlockTasksMap
      producers consumers) (inside : barrier < info.getNumOfVirtualBarriers)
    (before : home < info.lastBlock blockSize)
    (tasksInside : ∀ task, info.Touches barrier task → task < info.getNumOfTasks) :
    (¬ info.HomeProduced blockSize barrier ∧ redirectBarrier blockSize info.getNumOfTasks state
        barrier home barProdBlockTasksMap barConsBlockTasksMap = .error .undefined) ∨
      info.HomeProduced blockSize barrier ∧ ∃ stays fresh after,
        redirectBarrier blockSize info.getNumOfTasks state barrier home barProdBlockTasksMap
          barConsBlockTasksMap = .ok after ∧
        Redirected info blockSize barrier state after stays fresh := by
  have members := located.produced.mem_getD home
  have homeProduced : info.HomeProduced blockSize barrier ↔
      ∃ task, task ∈ barProdBlockTasksMap.getD home ∅ := by
    refine exists_congr fun task => ?_
    rw [members, located.mem_producers]
    exact and_congr_right fun linked => located.inHome_iff (.inl linked)
  unfold redirectBarrier
  cases found : (barProdBlockTasksMap.getD home ∅).elements with
  | nil =>
    refine .inl ⟨?_, rfl⟩
    rw [homeProduced]
    rintro ⟨task, mem⟩
    rw [← mem_elements, found] at mem
    exact not_mem_nil mem
  | cons earliest rest =>
    refine .inr ⟨homeProduced.mpr ⟨earliest, ?_⟩, ?_⟩
    · rw [← mem_elements, found]
      exact mem_cons_self
    let sync := syncTask blockSize home
    have syncEq : home * blockSize + blockSize - 1 = sync := syncTask_eq home
    have syncInside : sync < info.getNumOfTasks :=
      (Nat.lt_succ_self _).trans (syncTask_succ_lt pos before)
    have blocks : 0 < info.lastBlock blockSize := (Nat.zero_le home).trans_lt before
    -- The three loops and the change between the second and the third one.
    obtain ⟨fresh, someNew, moves⟩ := moveProducers_foldl barrier
      (barProdBlockTasksMap.toList.getLastD (0, ∅)).1 pos blocks (fun block task mem => by
        rw [located.consumed.mem_getD, located.mem_consumers] at mem
        exact tasksInside task (.inr mem.1)) (otherBlocks home barProdBlockTasksMap)
      (fun group => located.lateGroup tasksInside located.produced fun task listed =>
        .inl ((located.mem_producers task).mp listed))
      (otherBlocks_pairwise home _) state splitting
    have removes := removeConsumers_foldl barrier
      (otherBlocks home barConsBlockTasksMap) _ moves.splitting
    have room := moves.splitting.room
    -- The barriers that gain links are others than the one that loses them.
    have notNew : barrier ≠ state.info.getNumOfVirtualBarriers := by
      have stateRoom := splitting.room
      omega
    have moved := moves.trans removes (by simp) (by
      rintro _ task ⟨_, _, toUpdate | ⟨_, new, _⟩⟩ ⟨_, _, rfl, _⟩
      · have index := toUpdate.1
        omega
      · exact notNew new)
    have swapped := optionalSwap_changes moved.splitting (earliest ≠ sync)
      (inside.trans_le (by have := moved.splitting.room; omega)) syncInside
    have redirected := moved.trans swapped (by
      rintro _ task (⟨group, mem, links⟩ | impossible) ⟨rfl, _, rfl⟩
      swap
      · exact impossible
      have late := located.lateGroup tasksInside located.produced (fun task listed =>
        .inl ((located.mem_producers task).mp listed)) mem
      have own : sync / blockSize = group.1 :=
        late.block _ (links.elim (fun toWait => toWait.2.2.2.1) fun new => new.2.2)
      rw [syncTask_div pos] at own
      exact (located.produced.otherBlocks_spec mem).1 own.symm) (by simp)
    have links := Adds.foldl (linkConsumers blockSize)
      (otherBlocks home barConsBlockTasksMap)
      (fun group mem _ splitting => linkGroup_adds group pos splitting
        (located.lateGroup tasksInside located.consumed (fun task listed =>
          .inr ((located.mem_consumers task).mp listed)) mem)) _ redirected.splitting
    have whole := redirected.adds links
    rw [syncEq]
    have firstMember : earliest ∈ producers ∧ earliest / blockSize = home := by
      rw [← members, ← mem_elements, found]
      exact mem_cons_self
    rw [located.mem_producers] at firstMember
    refine ⟨earliest = sync, fresh, _, rfl, ?_, ?_, ?_, whole.congr rfl ?_ ?_ ?_ ?_⟩
    · intro stays task isSync
      have same : task = earliest := ((located.homeSync_iff task).mp isSync).trans stays.symm
      exact same ▸ firstMember.1
    · intro leaves
      refine ⟨earliest, firstMember.1, (located.inHome_iff (.inl firstMember.1)).mpr firstMember.2,
        fun isSync => leaves ((located.homeSync_iff earliest).mp isSync)⟩
    · refine someNew.imp (And.imp_left ?_) (And.imp_left ?_)
      · rintro ⟨group, mem, new⟩
        obtain ⟨different, _, task, listed, own⟩ := located.produced.otherBlocks_spec mem
        rw [located.mem_producers] at listed
        exact ⟨task, (located.toNew_iff task).mpr ⟨⟨listed, own ▸ different⟩, own ▸ new⟩⟩
      · rintro none ⟨task, toNew⟩
        obtain ⟨moved, new⟩ := (located.toNew_iff task).mp toNew
        obtain ⟨group, mem, _, isNew⟩ := (located.produced.exists_otherBlocks home task
          (fun block => block = (barProdBlockTasksMap.toList.getLastD (0, ∅)).1 ∧
            block ∈ barConsBlockTasksMap)).mpr
          ⟨⟨(located.mem_producers task).mpr moved.1, moved.2⟩, new⟩
        exact none group mem isNew
    · intro other task
      unfold Unproduced
      rw [located.homeSync_iff, located.moved_iff, ← located.mem_producers,
        ← located.produced.mem_otherBlocks home task, or_false, exists_mem_and_left, and_or_left]
    · intro other task
      simp only [or_false, and_false, exists_false]
      exact located.produced_iff _ other task
    · intro other task
      rw [false_or, or_false, exists_mem_and_left, located.consumed.mem_otherBlocks,
        located.mem_consumers]
      exact and_congr_right fun _ => and_congr_right fun linked =>
        not_congr (located.inHome_iff (.inr linked)).symm
    · intro other task
      unfold Consumed
      rw [located.homeSync_iff, ← located.newConsumer_iff, ← located.toUpdate_iff]
      simp only [or_false, and_or_left, exists_or]
      have rearranged : ∀ {first second third fourth : Prop},
          ((first ∨ second) ∨ third) ∨ fourth ↔ third ∨ (first ∨ fourth) ∨ second := by
        intro first second third fourth
        tauto
      exact rearranged

end NpuPlugin.BarrierInfo
