/-
This file proves that after a split the tasks of a block are behind the sync task before the block
and in front of the sync task at its end, except for a last task of the program that nothing puts
there.
-/

import NpuPlugin.BarrierInfo.SplitOrder

namespace NpuPlugin.BarrierInfo

open List Nat Reachability Relation Run

variable {Queue : Type} {info after : BarrierInfo Queue} {blockSize : Nat} {stays : Nat → Prop}

/-! ### The order of barriers and queues -/

/-- The tasks are on one queue, in this order. -/
def QueueOrder (info : BarrierInfo Queue) (task later : Nat) : Prop :=
  task < later ∧ ∃ queue, info.queueTypeOf task = some queue ∧ info.queueTypeOf later = some queue

def DirectlyBefore (info : BarrierInfo Queue) (task later : Nat) : Prop :=
  info.Controls task later ∨ info.QueueOrder task later

/-- The closure of the barrier relation and of the order of the queues. -/
def Ordered (info : BarrierInfo Queue) : Nat → Nat → Prop := TransGen info.DirectlyBefore

/-- The tasks of a block are between the sync tasks around it. -/
structure Synchronised (info : BarrierInfo Queue) (blockSize : Nat) : Prop where
  enter : ∀ task < info.getNumOfTasks, 0 < task / blockSize → info.Regular blockSize task →
    info.Ordered (syncTask blockSize (task / blockSize - 1)) task
  leave : ∀ task, task / blockSize < info.lastBlock blockSize →
    task ≠ syncTask blockSize (task / blockSize) →
      info.Ordered task (syncTask blockSize (task / blockSize))

variable {task later : Nat}

theorem queueOf_lt {queue : Queue} (own : info.queueTypeOf task = some queue) :
    task < info.getNumOfTasks := by
  by_contra outside
  unfold queueTypeOf at own
  rw [getElem?_eq_none (not_lt.mp outside)] at own
  cases own

theorem exists_queueOf (inside : task < info.getNumOfTasks) :
    ∃ queue, info.queueTypeOf task = some queue := by
  unfold queueTypeOf
  rw [getElem?_eq_getElem inside]
  exact ⟨_, rfl⟩

section

variable (valid : info.Valid) (follows : info.DirectlyBefore task later)
include valid follows

theorem DirectlyBefore.lt_tasks : task < info.getNumOfTasks := by
  rcases follows with ⟨barrier, linked, _⟩ | ⟨_, queue, own, _⟩
  · exact valid.task_lt .update linked
  · exact queueOf_lt own

theorem DirectlyBefore.lt_later : later < info.getNumOfTasks := by
  rcases follows with ⟨barrier, _, waits⟩ | ⟨_, queue, _, own⟩
  · exact valid.task_lt .wait waits
  · exact queueOf_lt own

end

namespace SplitResult

variable (res : SplitResult info blockSize stays after) {task : Nat}

include res

theorem queueOrder {later : Nat} (order : info.QueueOrder task later) :
    after.QueueOrder task later := by
  obtain ⟨less, queue, own, same⟩ := order
  exact ⟨less, queue, (res.queues task).trans own, (res.queues later).trans same⟩

/-! ### Behind the sync task before the block -/

/-- A task that waits for a barrier is linked to the sync task before its block, or it follows a
task of its block. -/
theorem enter_of_waits (valid : info.Valid) {barrier : Nat} (waits : info.waits.Linked barrier task)
    (regular : info.Regular blockSize task) :
    after.Controls (syncTask blockSize (task / blockSize - 1)) task ∨
      ∃ producer, info.Controls producer task ∧ producer / blockSize = task / blockSize ∧
        after.Controls producer task := by
  have inside : barrier < info.getNumOfVirtualBarriers := valid.barrier_lt .wait waits
  by_cases home : info.Crossing blockSize barrier → info.InHome blockSize barrier task
  · obtain ⟨producer, kept⟩ := res.oldProduced barrier inside
    refine .inr ⟨producer, ⟨barrier, kept.1, waits⟩, ?_,
      res.controls_old inside kept (.of_linked waits home)⟩
    by_cases crossing : info.Crossing blockSize barrier
    · exact (kept.inHome crossing).same (.inl kept.1) (home crossing) (.inr waits)
    · exact not_crossing_inner crossing (.inl kept.1) (.inr waits)
  · push Not at home
    exact .inl (res.controls_fromSync valid (.inr ⟨barrier, home.1, .inr waits, home.2, regular⟩))

/-- A task that waits for nothing is linked to the sync task before its block, or it is behind a
task of its queue. Only the last task of the program is not looked at. -/
theorem enter_of_free (valid : info.Valid) (pos : 0 < blockSize)
    (inside : task + 1 < info.getNumOfTasks) (late : 0 < task / blockSize)
    (regular : info.Regular blockSize task) (free : ∀ barrier, ¬ info.waits.Linked barrier task) :
    after.Controls (syncTask blockSize (task / blockSize - 1)) task ∨
      ∃ earlier, info.QueueOrder earlier task ∧ earlier / blockSize = task / blockSize := by
  by_cases found : info.FirstWithoutWait blockSize task
  · exact .inl (res.controls_fromSync valid (.inl found))
  · have other : ∃ earlier, earlier < task ∧ earlier / blockSize = task / blockSize ∧
        info.queueTypeOf earlier = info.queueTypeOf task := by
      by_contra none
      push Not at none
      refine found ⟨late, inside, fun sync => ?_, free, fun earlier less same own =>
        absurd own (none earlier less same)⟩
      by_cases before : task / blockSize < info.lastBlock blockSize
      · exact regular before sync
      · exact before (lt_lastBlock_of_syncTask pos (sync ▸ inside))
    obtain ⟨earlier, less, same, own⟩ := other
    obtain ⟨queue, mine⟩ := exists_queueOf ((lt_succ_self task).trans inside)
    exact .inr ⟨earlier, ⟨less, queue, own.trans mine, mine⟩, same⟩


/-! ### In front of the sync task of the block -/

theorem leave_of_updates (valid : info.Valid) {barrier : Nat}
    (linked : info.updates.Linked barrier task)
    (before : task / blockSize < info.lastBlock blockSize)
    (regular : task ≠ syncTask blockSize (task / blockSize)) (pos : 0 < blockSize) :
    after.Controls task (syncTask blockSize (task / blockSize)) ∨
      ∃ consumer, info.Controls task consumer ∧ consumer / blockSize = task / blockSize ∧
        after.Controls task consumer := by
  have inside : barrier < info.getNumOfVirtualBarriers := valid.barrier_lt .update linked
  by_cases crossing : info.Crossing blockSize barrier
  · by_cases inHome : info.InHome blockSize barrier task
    · rcases res.controls_home valid linked crossing inHome regular with
        toSync | ⟨_, consumer, waits, same, controls⟩
      · exact .inl toSync
      · exact .inr ⟨consumer, ⟨barrier, linked, waits⟩, same, controls⟩
    · by_cases new : info.InLastProducing blockSize barrier task ∧
          info.ConsumedIn blockSize barrier (task / blockSize)
      · obtain ⟨consumer, waits, same⟩ := new.2
        exact .inr ⟨consumer, ⟨barrier, linked, waits⟩, same,
          res.controls_new inside ⟨⟨linked, inHome⟩, new⟩ waits same.symm⟩
      · refine .inl (res.controls_wait before (.inl (.inr ⟨barrier, inside, ⟨linked, inHome⟩,
          not_and_or.mp new, ?_, fun _ => regular⟩)))
        exact (lt_succ_self _).trans (syncTask_succ_lt pos before)
  · obtain ⟨consumer, waits⟩ := (res.splittable barrier inside).consumed
    refine .inr ⟨consumer, ⟨barrier, linked, waits⟩,
      not_crossing_inner crossing (.inr waits) (.inl linked), ?_⟩
    exact res.controls_old inside ⟨linked, fun conditions => crossing conditions.1⟩
      (.of_linked waits fun between => absurd between crossing)

theorem leave_of_free (before : task / blockSize < info.lastBlock blockSize)
    (regular : task ≠ syncTask blockSize (task / blockSize)) (pos : 0 < blockSize)
    (free : ∀ barrier, ¬ info.updates.Linked barrier task) :
    after.Controls task (syncTask blockSize (task / blockSize)) ∨
      ∃ later, info.QueueOrder task later ∧ later / blockSize = task / blockSize := by
  by_cases found : info.LastWithoutUpdate blockSize task
  · exact .inl (res.controls_wait before (.inl (.inl found)))
  · have other : ∃ later, task < later ∧ later < syncTask blockSize (task / blockSize) ∧
        info.queueTypeOf later = info.queueTypeOf task := by
      by_contra none
      push Not at none
      exact found ⟨before, regular, free, fun later less bound own =>
        absurd own (none later less bound)⟩
    obtain ⟨later, less, bound, own⟩ := other
    have inside : task < info.getNumOfTasks :=
      (less.trans bound).trans ((Nat.lt_succ_self _).trans (syncTask_succ_lt pos before))
    obtain ⟨queue, mine⟩ := exists_queueOf inside
    refine .inr ⟨later, ⟨less, queue, mine, own.trans mine⟩, ?_⟩
    refine le_antisymm ?_ (Nat.div_le_div_right less.le)
    calc later / blockSize ≤ syncTask blockSize (task / blockSize) / blockSize :=
          Nat.div_le_div_right bound.le
      _ = task / blockSize := syncTask_div pos _

theorem enter_of_before {earlier : Nat} (same : earlier / blockSize = task / blockSize)
    (late : 0 < task / blockSize) (step : after.DirectlyBefore earlier task)
    (reached : info.Regular blockSize earlier →
      after.Ordered (syncTask blockSize (earlier / blockSize - 1)) earlier) :
    after.Ordered (syncTask blockSize (task / blockSize - 1)) task := by
  by_cases regular : info.Regular blockSize earlier
  · rw [← same]
    exact (reached regular).tail step
  · unfold Regular at regular
    push Not at regular
    obtain ⟨before, sync⟩ := regular
    rw [same] at before sync
    obtain ⟨previous, own⟩ := exists_eq_succ_of_ne_zero late.ne'
    rw [own] at before sync ⊢
    have chain : after.Controls _ _ := res.controls_chain before
    rw [sync] at step
    exact TransGen.tail (.single (.inl chain)) step

end SplitResult

/-- The last task waits for something, or it is behind the last sync task on its queue. -/
def LastTaskSynchronised (info : BarrierInfo Queue) (blockSize : Nat) : Prop :=
  (∃ barrier, info.waits.Linked barrier (info.getNumOfTasks - 1)) ∨
    ∃ earlier, syncTask blockSize (info.lastBlock blockSize - 1) ≤ earlier ∧
      info.QueueOrder earlier (info.getNumOfTasks - 1)

section Directions

variable (res : SplitResult info blockSize stays after) (valid : info.Valid)
  (pos : 0 < blockSize) (acyclic : Acyclic info.DirectlyBefore)

include res valid pos acyclic

/-- By induction along the order from before the split: what makes a task follow another one of its
block is kept. -/
theorem SplitResult.enter (blocks : 0 < info.lastBlock blockSize)
    (last : info.LastTaskSynchronised blockSize) (task : Nat) (inside : task < info.getNumOfTasks)
    (late : 0 < task / blockSize) (regular : info.Regular blockSize task) :
    after.Ordered (syncTask blockSize (task / blockSize - 1)) task := by
  induction task using (acyclic.wellFounded info.getNumOfTasks fun _ _ =>
    DirectlyBefore.lt_tasks valid).induction with
  | _ task ih =>
    -- A task of the block that the task follows.
    have further : ∀ earlier, info.DirectlyBefore earlier task → after.DirectlyBefore earlier task →
        earlier / blockSize = task / blockSize →
          after.Ordered (syncTask blockSize (task / blockSize - 1)) task := by
      intro earlier before step same
      refine res.enter_of_before same late step fun regularEarlier => ?_
      exact ih earlier before (before.lt_tasks valid) (same ▸ late) regularEarlier
    by_cases waits : ∃ barrier, info.waits.Linked barrier task
    · obtain ⟨barrier, waits⟩ := waits
      rcases res.enter_of_waits valid waits regular with linked |
        ⟨producer, controls, same, kept⟩
      · exact .single (.inl linked)
      · exact further producer (.inl controls) (.inl kept) same
    · push Not at waits
      by_cases inner : task + 1 < info.getNumOfTasks
      · rcases res.enter_of_free valid pos inner late regular waits with
          linked | ⟨earlier, order, same⟩
        · exact .single (.inl linked)
        · exact further earlier (.inr order) (.inr (res.queueOrder order)) same
      · -- The last task.
        have final : info.getNumOfTasks - 1 = task := by omega
        rcases last with ⟨barrier, linked⟩ | ⟨earlier, bound, order⟩
        · rw [final] at linked
          exact absurd linked (waits barrier)
        · rw [final] at order
          have own : task / blockSize = info.lastBlock blockSize := by
            unfold lastBlock
            rw [final]
          rcases Nat.lt_or_eq_of_le bound with less | equal
          · have same : earlier / blockSize = task / blockSize := by
              refine (Nat.div_le_div_right order.1.le).antisymm ?_
              have multiple := succ_syncTask pos (info.lastBlock blockSize - 1)
              rw [Nat.sub_add_cancel blocks] at multiple
              rw [own, Nat.le_div_iff_mul_le pos]
              omega
            exact further earlier (.inr order) (.inr (res.queueOrder order)) same
          · rw [own, equal]
            exact .single (.inr (res.queueOrder order))

/-- By induction against the order from before the split. -/
theorem SplitResult.leave (task : Nat) (before : task / blockSize < info.lastBlock blockSize)
    (regular : task ≠ syncTask blockSize (task / blockSize)) :
    after.Ordered task (syncTask blockSize (task / blockSize)) := by
  induction task using (acyclic.swap.wellFounded info.getNumOfTasks
    (fun _ _ follows => follows.lt_later valid)).induction with
  | _ task ih =>
    have further : ∀ later, info.DirectlyBefore task later → after.DirectlyBefore task later →
        later / blockSize = task / blockSize →
          after.Ordered task (syncTask blockSize (task / blockSize)) := by
      intro later behind step same
      by_cases sync : later = syncTask blockSize (later / blockSize)
      · rw [← same, ← sync]
        exact .single step
      · rw [← same]
        exact TransGen.head step (ih later behind (same ▸ before) sync)
    by_cases updates : ∃ barrier, info.updates.Linked barrier task
    · obtain ⟨barrier, linked⟩ := updates
      rcases res.leave_of_updates valid linked before regular pos with
        linked | ⟨consumer, controls, same, kept⟩
      · exact .single (.inl linked)
      · exact further consumer (.inl controls) (.inl kept) same
    · push Not at updates
      rcases res.leave_of_free before regular pos updates with linked | ⟨later, order, same⟩
      · exact .single (.inl linked)
      · exact further later (.inr order) (.inr (res.queueOrder order)) same

end Directions

/-! ### The last task -/

section IndexOrdered

variable (res : SplitResult info blockSize stays after) (valid : info.Valid)
  (pos : 0 < blockSize) (ordered : info.IndexOrdered)

include res valid pos ordered

/-- When the last task waits for nothing, the split links nothing to it. -/
theorem SplitResult.not_controls_last
    (free : ∀ barrier, ¬ info.waits.Linked barrier (info.getNumOfTasks - 1)) (task : Nat) :
    ¬ after.Controls task (info.getNumOfTasks - 1) := by
  intro controls
  have noSync : ∀ block < info.lastBlock blockSize,
      info.getNumOfTasks - 1 ≠ syncTask blockSize block := by
    intro block before
    have less := syncTask_succ_lt pos before
    omega
  generalize last : info.getNumOfTasks - 1 = child at *
  cases res.splitEdge_of_controls valid ordered controls with
  | inner before _ =>
    obtain ⟨barrier, _, waits⟩ := before
    exact free barrier waits
  | toSync links =>
    exact noSync _ (links.elim (fun found => found.block) fun conditions => conditions.1) rfl
  | fromSync entered =>
    rcases entered with found | ⟨barrier, _, linked | waits, _⟩
    · have inside := found.inside
      omega
    · obtain ⟨consumer, waits⟩ := (res.splittable barrier
        (valid.barrier_lt .update linked)).consumed
      have later := ordered barrier _ consumer linked waits
      have inside := valid.task_lt .wait waits
      omega
    · exact free barrier waits
  | chain before => exact noSync _ before rfl

theorem SplitResult.directlyBefore_lt {task later : Nat}
    (follows : after.DirectlyBefore task later) : task < later :=
  follows.elim
    (fun controls => ((res.splitEdge_of_controls valid ordered controls).place valid pos ordered).1)
    And.left

theorem SplitResult.lastTaskSynchronised (blocks : 0 < info.lastBlock blockSize)
    (synchronised : after.Synchronised blockSize) : info.LastTaskSynchronised blockSize := by
  by_contra none
  obtain ⟨free, alone⟩ := not_or.mp none
  push Not at free alone
  have occupied : 0 < info.getNumOfTasks := by
    by_contra empty
    have zero : info.getNumOfTasks = 0 := Nat.eq_zero_of_not_pos empty
    unfold lastBlock at blocks
    rw [zero] at blocks
    simp at blocks
  have own : (info.getNumOfTasks - 1) / blockSize = info.lastBlock blockSize := rfl
  have inside : info.getNumOfTasks - 1 < after.getNumOfTasks := by
    rw [res.tasks]
    exact sub_lt occupied one_pos
  have path := synchronised.enter (info.getNumOfTasks - 1) inside (own ▸ blocks) fun before => by
      unfold lastBlock at before
      rw [res.tasks] at before
      exact absurd before (lt_irrefl _)
  have step : ∀ task, syncTask blockSize (info.lastBlock blockSize - 1) ≤ task →
      ¬ after.DirectlyBefore task (info.getNumOfTasks - 1) := by
    rintro task bound (controls | ⟨less, queue, mine, same⟩)
    · exact res.not_controls_last valid pos ordered free task controls
    · exact alone task bound ⟨less, queue, (res.queues task).symm.trans mine,
        (res.queues _).symm.trans same⟩
  have increasing : Increasing after.DirectlyBefore :=
    fun follows => res.directlyBefore_lt valid pos ordered follows
  cases path with
  | single follows => exact step _ le_rfl follows
  | tail before follows => exact step _ (increasing.lt_of_transGen before).le follows

end IndexOrdered

/-- When a split puts all tasks between the sync tasks of their blocks, whatever the queues are. -/
theorem splitControlGraphToBlocks_synchronised [LinearOrder Queue] (valid : info.Valid)
    (accepted : info.splitControlGraphToBlocks blockSize = .ok after) :
    (info.IndexOrdered → (after.Synchronised blockSize ↔
      info.getNumOfTasks ≤ blockSize ∨ info.LastTaskSynchronised blockSize)) ∧
    (Acyclic info.DirectlyBefore →
      info.getNumOfTasks ≤ blockSize ∨ info.LastTaskSynchronised blockSize →
        after.Synchronised blockSize) := by
  by_cases few : info.getNumOfTasks ≤ blockSize
  · -- There is only one block.
    have synchronised : after.Synchronised blockSize := by
      rw [splitControlGraphToBlocks_few accepted few]
      refine ⟨fun task inside late => ?_, fun task before => ?_⟩
      · rw [div_eq_of_lt (inside.trans_le few)] at late
        exact absurd late (lt_irrefl 0)
      · unfold lastBlock at before
        rcases Nat.eq_zero_or_pos info.getNumOfTasks with empty | occupied
        · rw [empty] at before
          simp at before
        · rw [div_eq_of_lt ((sub_lt occupied one_pos).trans_le few)] at before
          exact absurd before (not_lt_zero _)
    exact ⟨fun _ => iff_of_true synchronised (.inl few), fun _ _ => synchronised⟩
  · have many := not_le.mp few
    obtain ⟨large, _, stays, res⟩ := splitControlGraphToBlocks_ok valid accepted many
    have pos : 0 < blockSize := Nat.zero_lt_two.trans_le large
    have blocks := lastBlock_pos pos many
    have sameLast : after.lastBlock blockSize = info.lastBlock blockSize := by
      unfold lastBlock
      rw [res.tasks]
    have sufficient : Acyclic info.DirectlyBefore → info.LastTaskSynchronised blockSize →
        after.Synchronised blockSize := by
      intro acyclic last
      refine ⟨fun task inside late regular => ?_, fun task before => ?_⟩
      · unfold Regular at regular
        rw [sameLast] at regular
        exact res.enter valid pos acyclic blocks last task (res.tasks ▸ inside) late
          regular
      · rw [sameLast] at before
        exact res.leave valid pos acyclic task before
    rw [or_iff_right few]
    refine ⟨fun ordered => ⟨res.lastTaskSynchronised valid pos ordered blocks,
      sufficient ?_⟩, sufficient⟩
    have increasing : Increasing info.DirectlyBefore := by
      rintro task later (⟨barrier, linked, waits⟩ | order)
      · exact ordered barrier task later linked waits
      · exact order.1
    exact increasing.acyclic

/-! ### Runs -/

theorem splitControlGraphToBlocks_synchronised_four : ∃ info after : BarrierInfo Nat,
    buildBarrierMaps (chainThenFree 2) 1 = .ok info ∧
      info.splitControlGraphToBlocks 2 = .ok after ∧
      (info.IndexOrdered → (after.Synchronised 2 ↔
        info.getNumOfTasks ≤ 2 ∨ info.LastTaskSynchronised 2)) ∧
      (Acyclic info.DirectlyBefore → info.getNumOfTasks ≤ 2 ∨ info.LastTaskSynchronised 2 →
        after.Synchronised 2) := by
  obtain ⟨info, built, accepted⟩ : ∃ info : BarrierInfo Nat,
      buildBarrierMaps (chainThenFree 2) 1 = .ok info ∧
        (info.splitControlGraphToBlocks 2).toOption.any (fun _ => true) = true :=
    exists_ok _ _ (by decide)
  obtain ⟨after, res, _⟩ := exists_ok _ _ accepted
  exact ⟨info, after, built, res,
    splitControlGraphToBlocks_synchronised (buildBarrierMaps_valid built).1 res⟩

/-- Two tasks that a barrier orders, and a last task alone on another queue. -/
def twoQueueTasks : List (TaskOp Nat) :=
  [⟨0, 1, [], [0], false⟩, ⟨0, 1, [0], [], false⟩, ⟨1, 1, [], [], false⟩]

/-- Nothing puts the last task behind the sync task. -/
theorem split_leaves_last_task_out : ∃ info after : BarrierInfo Nat,
    buildBarrierMaps twoQueueTasks 1 = .ok info ∧ info.IndexOrdered ∧
      info.splitControlGraphToBlocks 2 = .ok after ∧ ¬ after.Synchronised 2 := by
  obtain ⟨info, built, checked⟩ : ∃ info : BarrierInfo Nat,
      buildBarrierMaps twoQueueTasks 1 = .ok info ∧ decide (info.IndexOrdered ∧
        (info.splitControlGraphToBlocks 2).toOption.any fun after =>
          after.getNumOfTasks = 3 ∧ after.queueTypeOf 1 ≠ after.queueTypeOf 2 ∧
          ∀ barrier ∈ range after.updates.rows.length,
            1 ∈ after.updates.row barrier → (after.waits.row barrier).elements = []) = true :=
    exists_ok _ _ (by decide)
  obtain ⟨ordered, accepted⟩ := of_decide_eq_true checked
  obtain ⟨after, res, checked⟩ := exists_ok _ _ accepted
  obtain ⟨tasks, queues, unconsumed⟩ := of_decide_eq_true checked
  refine ⟨info, after, built, ordered, res, fun synchronised => ?_⟩
  -- Nothing follows the sync task.
  have none : ∀ later, ¬ after.DirectlyBefore 1 later := by
    rintro later (⟨barrier, updates, waits⟩ | ⟨less, queue, own, same⟩)
    · have empty := unconsumed barrier (mem_range.mpr updates.row_lt) updates
      rw [← IncidenceTable.mem_row, ← SmallSet.mem_elements, empty] at waits
      exact not_mem_nil waits
    · have inside := queueOf_lt same
      have last : later = 2 := by omega
      exact queues (own.trans (last ▸ same.symm))
  have path := synchronised.enter 2 (by omega) (by decide) fun before => by
    unfold lastBlock at before
    rw [tasks] at before
    exact absurd before (by decide)
  obtain ⟨later, follows, _⟩ := TransGen.head'_iff.mp path
  exact none later follows

end NpuPlugin.BarrierInfo
