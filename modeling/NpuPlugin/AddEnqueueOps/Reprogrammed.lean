/-
This file proves what a step of the pass does to the enqueue ops of a FIFO, and when the physical
barriers of each task are reprogrammed before it is enqueued.
-/

import NpuPlugin.AddEnqueueOps.Model

namespace NpuPlugin.AddEnqueueOps

open Except List Nat Run

/-! ### Ranges -/

/-- The ranges of the enqueue ops follow one after the other, from a first task to a next one. -/
def Tiled : Nat → List EnqueueOp → Nat → Prop
  | first, [], next => first = next
  | first, op :: rest, next => op.start = first ∧ first ≤ op.stop ∧ Tiled (op.stop + 1) rest next

variable {first next : Nat} {op : EnqueueOp} {ops others : List EnqueueOp} {position barrier : Nat}

theorem tiled_cons {rest : List EnqueueOp} :
    Tiled first (op :: rest) next ↔
      op.start = first ∧ first ≤ op.stop ∧ Tiled (op.stop + 1) rest next :=
  Iff.rfl

theorem tiled_append :
    Tiled first (ops ++ others) next ↔
      ∃ middle, Tiled first ops middle ∧ Tiled middle others next := by
  induction ops generalizing first with
  | nil => exact ⟨fun tiled => ⟨first, rfl, tiled⟩, fun ⟨_, same, tiled⟩ => same ▸ tiled⟩
  | cons op rest ih =>
    rw [cons_append, tiled_cons, ih]
    exact ⟨fun ⟨start, stop, middle, one, two⟩ => ⟨middle, ⟨start, stop, one⟩, two⟩,
      fun ⟨middle, ⟨start, stop, one⟩, two⟩ => ⟨start, stop, middle, one, two⟩⟩

theorem tiled_singleton :
    Tiled first [op] next ↔ op.start = first ∧ first ≤ op.stop ∧ op.stop + 1 = next :=
  Iff.rfl

def Enqueued (ops : List EnqueueOp) (position barrier : Nat) : Prop :=
  ∃ op ∈ ops, op.barrier = barrier ∧ op.start ≤ position ∧ position ≤ op.stop

theorem enqueued_append :
    Enqueued (ops ++ others) position barrier ↔
      Enqueued ops position barrier ∨ Enqueued others position barrier := by
  unfold Enqueued
  simp only [mem_append, or_and_right, exists_or]

theorem enqueued_singleton :
    Enqueued [op] position barrier ↔
      op.barrier = barrier ∧ op.start ≤ position ∧ position ≤ op.stop := by
  unfold Enqueued
  simp only [mem_singleton, exists_eq_left]

theorem Tiled.enqueued_iff (tiled : Tiled first ops next) (position : Nat) :
    (∃ barrier, Enqueued ops position barrier) ↔ first ≤ position ∧ position < next := by
  induction ops generalizing first with
  | nil =>
    cases tiled
    exact ⟨fun ⟨_, _, mem, _⟩ => absurd mem not_mem_nil, fun inside =>
      absurd inside.1 inside.2.not_ge⟩
  | cons op rest ih =>
    obtain ⟨start, stop, others⟩ := tiled
    have further : op.stop + 1 ≤ next := by
      clear ih
      induction rest generalizing op first with
      | nil => exact others.le
      | cons other rest restHypothesis =>
        obtain ⟨otherStart, otherStop, later⟩ := others
        have behind := restHypothesis other otherStart otherStop later
        omega
    have both : (∃ barrier, Enqueued (op :: rest) position barrier) ↔
        (op.start ≤ position ∧ position ≤ op.stop) ∨ ∃ barrier, Enqueued rest position barrier := by
      rw [← singleton_append]
      simp only [enqueued_append, enqueued_singleton, exists_or, exists_eq_left']
    rw [both, ih others]
    omega

/-! ### Enqueue ops of a FIFO -/

/-- The enqueue ops of a FIFO take the tasks from a first one on. -/
structure Enqueues.Sound (fifo : Fifo) (enqueues : Enqueues) (firstIndex first next : Nat) :
    Prop where
  tiled : Tiled first enqueues.all next
  sameFifo : ∀ op ∈ enqueues.all, op.fifo = fifo
  ordered : enqueues.all.Pairwise fun earlier later => earlier.barrier < later.barrier
  indices : enqueues.all.map EnqueueOp.index = List.range' firstIndex enqueues.all.length
  counter : enqueues.counter = firstIndex + enqueues.all.length
  begun : enqueues.localPreviousEnqu = none → enqueues.enquOps = []

namespace Enqueues

variable {fifo : Fifo} {enqueues : Enqueues} {firstIndex first next : Nat}

theorem noEnqueues_sound (position : Nat) :
    (noEnqueues firstIndex).Sound fifo firstIndex position position :=
  ⟨rfl, forall_mem_nil _, .nil, rfl, rfl, fun _ => rfl⟩

theorem Sound.first_eq (sound : enqueues.Sound fifo firstIndex first next)
    (none : enqueues.localPreviousEnqu = none) : enqueues.all = [] ∧ first = next := by
  have empty : enqueues.all = [] := by
    unfold all
    rw [sound.begun none, none]
    rfl
  have tiled := sound.tiled
  rw [empty] at tiled
  exact ⟨empty, tiled⟩

variable {previousEnqu : EnqueueOp} {target stop : Nat}

theorem all_eq (previous : enqueues.localPreviousEnqu = some previousEnqu) :
    enqueues.all = enqueues.enquOps ++ [previousEnqu] := by
  unfold all
  rw [previous]
  rfl

theorem extend_all (previous : enqueues.localPreviousEnqu = some previousEnqu) (stop : Nat) :
    (enqueues.extend stop).all = enqueues.enquOps ++ [{ previousEnqu with stop }] := by
  unfold all extend
  rw [previous]
  rfl

theorem create_all {start : Nat} :
    (enqueues.create fifo target start stop).all =
      enqueues.all ++ [⟨enqueues.counter, target, fifo, start, stop⟩] :=
  rfl

theorem Sound.extend (sound : enqueues.Sound fifo firstIndex first next)
    (previous : enqueues.localPreviousEnqu = some previousEnqu) (further : next ≤ stop) :
    (enqueues.extend stop).Sound fifo firstIndex first (stop + 1) ∧ ∀ position barrier,
      Enqueued (enqueues.extend stop).all position barrier ↔
        Enqueued enqueues.all position barrier ∨
          barrier = previousEnqu.barrier ∧ next ≤ position ∧ position ≤ stop := by
  obtain ⟨tiled, sameFifo, ordered, indices, counter, begun⟩ := sound
  have all := all_eq previous
  rw [all, tiled_append] at tiled
  obtain ⟨middle, before, last⟩ := tiled
  obtain ⟨start, nonempty, behind⟩ := tiled_singleton.mp last
  have extended := extend_all previous stop
  rw [all] at sameFifo ordered indices counter
  constructor
  · constructor
    · rw [extended, tiled_append]
      exact ⟨middle, before, tiled_singleton.mpr ⟨start, (by omega : middle ≤ stop), rfl⟩⟩
    · rw [extended]
      intro op mem
      rcases mem_append.mp mem with inFront | here
      · exact sameFifo op (mem_append_left _ inFront)
      · rw [mem_singleton.mp here]
        exact sameFifo previousEnqu (mem_append_right _ (mem_singleton_self _))
    · rw [extended]
      rw [pairwise_append] at ordered ⊢
      refine ⟨ordered.1, pairwise_singleton _ _, fun op mem last isLast => ?_⟩
      rw [mem_singleton.mp isLast]
      exact ordered.2.2 op mem previousEnqu (mem_singleton_self _)
    · rw [extended, length_append, map_append]
      rw [length_append, map_append] at indices
      exact indices
    · rw [extended, length_append]
      rw [length_append] at counter
      exact counter
    · intro none
      unfold Enqueues.extend at none
      rw [previous] at none
      cases none
  · intro position barrier
    rw [extended, all, enqueued_append, enqueued_append, enqueued_singleton, enqueued_singleton,
      or_assoc]
    refine or_congr_right ?_
    dsimp only
    constructor
    · rintro ⟨same, above, below⟩
      rcases Nat.lt_or_ge position next with old | new
      · exact .inl ⟨same, above, by omega⟩
      · exact .inr ⟨same.symm, new, below⟩
    · rintro (⟨same, above, below⟩ | ⟨same, above, below⟩)
      · exact ⟨same, above, by omega⟩
      · exact ⟨same.symm, by omega, below⟩

theorem Sound.create (sound : enqueues.Sound fifo firstIndex first next)
    (later : ∀ previousEnqu, enqueues.localPreviousEnqu = some previousEnqu →
      previousEnqu.barrier < target) (further : next ≤ stop) :
    (enqueues.create fifo target next stop).Sound fifo firstIndex first (stop + 1) ∧
      ∀ position barrier, Enqueued (enqueues.create fifo target next stop).all position barrier ↔
        Enqueued enqueues.all position barrier ∨
          barrier = target ∧ next ≤ position ∧ position ≤ stop := by
  have behindAll : ∀ op ∈ enqueues.all, op.barrier < target := by
    intro op mem
    cases previous : enqueues.localPreviousEnqu with
    | none =>
      rw [(sound.first_eq previous).1] at mem
      cases mem
    | some previousEnqu =>
      have ordered := sound.ordered
      rw [all_eq previous] at mem ordered
      have last := later previousEnqu previous
      rcases mem_append.mp mem with inFront | here
      · exact ((pairwise_append.mp ordered).2.2 op inFront previousEnqu
          (mem_singleton_self _)).trans last
      · exact mem_singleton.mp here ▸ last
  constructor
  · constructor
    · rw [create_all, tiled_append]
      exact ⟨next, sound.tiled, tiled_singleton.mpr ⟨rfl, further, rfl⟩⟩
    · rw [create_all]
      intro op mem
      rcases mem_append.mp mem with inFront | here
      · exact sound.sameFifo op inFront
      · rw [mem_singleton.mp here]
    · rw [create_all, pairwise_append]
      refine ⟨sound.ordered, pairwise_singleton _ _, fun op mem last isLast => ?_⟩
      rw [mem_singleton.mp isLast]
      exact behindAll op mem
    · rw [create_all, length_append, map_append, sound.indices, length_singleton,
        range'_1_concat, sound.counter]
      rfl
    · rw [create_all, length_append, length_singleton, ← Nat.add_assoc, ← sound.counter]
      rfl
    · exact nofun
  · intro position barrier
    rw [create_all, enqueued_append, enqueued_singleton]
    exact or_congr_right (and_congr_left fun _ => eq_comm)

theorem raised_ge (previous : enqueues.localPreviousEnqu = some previousEnqu) :
    previousEnqu.barrier ≤ enqueues.raised target := by
  unfold raised
  rw [previous]
  exact le_max_left _ _

theorem isExtended_iff : enqueues.isExtended target = true ↔
    ∃ previousEnqu, enqueues.localPreviousEnqu = some previousEnqu ∧
      previousEnqu.barrier = target := by
  unfold isExtended
  cases enqueues.localPreviousEnqu with
  | none => exact ⟨nofun, nofun⟩
  | some previousEnqu =>
    exact ⟨fun same => ⟨previousEnqu, rfl, eq_of_beq same⟩, fun ⟨_, here, same⟩ =>
      beq_iff_eq.mpr (Option.some.inj here ▸ same)⟩

theorem later_of_not_extended (new : ¬ enqueues.isExtended (enqueues.raised target) = true)
    (previousEnqu : EnqueueOp) (previous : enqueues.localPreviousEnqu = some previousEnqu) :
    previousEnqu.barrier < enqueues.raised target :=
  lt_of_le_of_ne (raised_ge previous) fun same => new (isExtended_iff.mpr ⟨_, previous, same⟩)

theorem Sound.enqueue (sound : enqueues.Sound fifo firstIndex first next) (target : Nat)
    (further : next ≤ stop) :
    (enqueues.enqueue fifo (enqueues.raised target) next stop).Sound fifo firstIndex first
      (stop + 1) ∧ ∀ position barrier,
      Enqueued (enqueues.enqueue fifo (enqueues.raised target) next stop).all position barrier ↔
        Enqueued enqueues.all position barrier ∨
          barrier = enqueues.raised target ∧ next ≤ position ∧ position ≤ stop := by
  unfold Enqueues.enqueue
  split
  · next extended =>
    obtain ⟨previousEnqu, previous, same⟩ := isExtended_iff.mp extended
    rw [← same]
    exact sound.extend previous further
  · next new => exact sound.create (later_of_not_extended new) further

end Enqueues

variable {prog : Program} {fifo : Fifo}

/-! ### DPU and SHAVE tasks -/

/-- The barrier at which a primary task wants to be enqueued. -/
def primaryTarget (prog : Program) (state : PrimaryState) (primary : PrimaryTask) : Option Nat :=
  primary.getBarrieredOp.bind fun barrieredOp =>
    getMinBarrier (lca prog.barriers (primaryUsages prog
      (primary.fetchTask.getD state.previousFetchTask) barrieredOp))

variable {state after : PrimaryState} {primary : PrimaryTask} {firstIndex : Nat}

theorem addEnqu_ok (res : addEnqu prog fifo state primary = .ok after) :
    ∃ target, primaryTarget prog state primary = some target ∧
      0 < primary.secondaries.length ∧
      after.enqueues = state.enqueues.enqueue fifo (state.enqueues.raised target) state.position
        (state.position + primary.secondaries.length - 1) ∧
      after.position = state.position + primary.secondaries.length := by
  unfold addEnqu at res
  split at res
  · cases res
  next nonempty =>
  split at res
  · cases res
  next barrieredOp found =>
  dsimp only at res
  split at res
  · cases res
  next target lowest =>
  have wanted : primaryTarget prog state primary = some target := by
    unfold primaryTarget
    rw [found]
    exact lowest
  have some : 0 < primary.secondaries.length :=
    length_pos_iff.mpr fun empty => nonempty (isEmpty_iff.mpr empty)
  obtain ⟨_, _, rest⟩ := bind_ok res
  split at rest
  · cases rest
    exact ⟨target, wanted, some, rfl, rfl⟩
  · cases rest

/-- The tasks that a primary task adds to the enqueue ops. -/
def PrimaryAdds (prog : Program) (state : PrimaryState) (primary : PrimaryTask)
    (entry : Nat × Nat) : Prop :=
  ∃ target, primaryTarget prog state primary = some target ∧
    entry.2 = state.enqueues.raised target ∧ state.position ≤ entry.1 ∧
    entry.1 < state.position + primary.secondaries.length

variable {primaries : List PrimaryTask}

section

variable (sound : state.enqueues.Sound fifo firstIndex 0 state.position)
include sound

theorem addEnqu_sound (res : addEnqu prog fifo state primary = .ok after) :
    after.enqueues.Sound fifo firstIndex 0 after.position ∧ ∀ entry : Nat × Nat,
      Enqueued after.enqueues.all entry.1 entry.2 ↔
        Enqueued state.enqueues.all entry.1 entry.2 ∨ PrimaryAdds prog state primary entry := by
  obtain ⟨target, wanted, some, enqueues, position⟩ := addEnqu_ok res
  have stop : state.position + primary.secondaries.length - 1 + 1 =
      state.position + primary.secondaries.length := Nat.sub_add_cancel (by omega)
  obtain ⟨kept, adds⟩ := sound.enqueue target
    (by omega : state.position ≤ state.position + primary.secondaries.length - 1)
  rw [← enqueues, stop] at kept
  rw [← enqueues] at adds
  refine ⟨position ▸ kept, fun entry => (adds entry.1 entry.2).trans (or_congr_right ?_)⟩
  constructor
  · rintro ⟨same, above, below⟩
    exact ⟨target, wanted, same, above, by omega⟩
  · rintro ⟨other, found, same, above, below⟩
    cases wanted.symm.trans found
    exact ⟨same, above, by omega⟩

theorem addEnqu_run {final : PrimaryState}
    (res : primaries.foldlM (addEnqu prog fifo) state = .ok final) :
    final.enqueues.Sound fifo firstIndex 0 final.position ∧ final.position =
      state.position + (primaries.flatMap PrimaryTask.secondaries).length := by
  induction primaries generalizing state with
  | nil =>
    cases res
    exact ⟨sound, rfl⟩
  | cons primary rest ih =>
    obtain ⟨after, ran, later⟩ := bind_ok res
    obtain ⟨_, _, _, _, position⟩ := addEnqu_ok ran
    obtain ⟨kept, last⟩ := ih (addEnqu_sound sound ran).1 later
    rw [flatMap_cons, length_append, ← Nat.add_assoc, ← position]
    exact ⟨kept, last⟩

end

/-! ### DMA tasks -/

/-- The barrier at which a DMA wants to be enqueued. -/
def dmaTarget (prog : Program) (state : DmaState) (dmaTask : ExecutableTask) : Option Nat :=
  if dmaTask.updateBarriers.isEmpty && dmaTask.waitBarriers.isEmpty then none
  else getMinBarrier (lca prog.barriers (dmaUsages prog state dmaTask))

def dmaBarrier (prog : Program) (state : DmaState) (dmaTask : ExecutableTask) : Option Nat :=
  match dmaTarget prog state dmaTask with
  | some target => some (state.enqueues.raised target)
  | none => state.enqueues.localPreviousEnqu.map EnqueueOp.barrier

variable {dmaTask : ExecutableTask}

theorem addDmaEnqu_ok {state after : DmaState}
    (res : addDmaEnqu prog fifo state dmaTask = .ok after) :
    (dmaTarget prog state dmaTask = none ∧ after = state.append) ∨
      ∃ target, dmaTarget prog state dmaTask = some target ∧
        after = state.enqueue fifo dmaTask (state.enqueues.raised target) := by
  unfold addDmaEnqu at res
  unfold dmaTarget
  split at res
  · next noBarriers =>
    rw [if_pos noBarriers]
    exact .inl ⟨rfl, (ok.inj res).symm⟩
  · next someBarriers =>
    rw [if_neg someBarriers]
    split at res
    · next noTarget => exact .inl ⟨noTarget, (ok.inj res).symm⟩
    · next target lowest =>
      dsimp only at res
      split at res
      · exact .inr ⟨target, lowest, (ok.inj res).symm⟩
      · cases res

/-- The DMAs in front of the enqueue ops. -/
def initialCount (lastDmaWithNoEnqueue : Option Nat) : Nat := lastDmaWithNoEnqueue.elim 0 (· + 1)

def DmaState.Sound (fifo : Fifo) (firstIndex : Nat) (state : DmaState) : Prop :=
  state.enqueues.Sound fifo firstIndex (initialCount state.lastDmaWithNoEnqueue) state.position

/-- The task that a DMA adds to the enqueue ops. -/
def DmaAdds (prog : Program) (state : DmaState) (dmaTask : ExecutableTask)
    (entry : Nat × Nat) : Prop :=
  dmaBarrier prog state dmaTask = some entry.2 ∧ entry.1 = state.position

theorem DmaState.enqueue_enqueues (state : DmaState) (fifo : Fifo) (dmaTask : ExecutableTask)
    (target : Nat) :
    (state.enqueue fifo dmaTask target).enqueues =
        state.enqueues.enqueue fifo target state.position state.position ∧
      (state.enqueue fifo dmaTask target).lastDmaWithNoEnqueue = state.lastDmaWithNoEnqueue ∧
      (state.enqueue fifo dmaTask target).position = state.position + 1 := by
  unfold DmaState.enqueue Enqueues.enqueue
  split
  · exact ⟨rfl, rfl, rfl⟩
  · exact ⟨rfl, rfl, rfl⟩

theorem addDmaEnqu_sound {state after : DmaState} (sound : state.Sound fifo firstIndex)
    (res : addDmaEnqu prog fifo state dmaTask = .ok after) :
    after.Sound fifo firstIndex ∧ after.position = state.position + 1 ∧ ∀ entry : Nat × Nat,
      Enqueued after.enqueues.all entry.1 entry.2 ↔
        Enqueued state.enqueues.all entry.1 entry.2 ∨ DmaAdds prog state dmaTask entry := by
  have between : ∀ position : Nat,
      (state.position ≤ position ∧ position ≤ state.position) ↔ position = state.position :=
    fun position => ⟨fun both => le_antisymm both.2 both.1, fun same => ⟨same.ge, same.le⟩⟩
  unfold DmaAdds dmaBarrier
  rcases addDmaEnqu_ok res with ⟨noTarget, rfl⟩ | ⟨target, wanted, rfl⟩
  · rw [noTarget]
    unfold DmaState.append
    split
    · next previousEnqu previous =>
      obtain ⟨kept, adds⟩ := sound.extend previous le_rfl
      refine ⟨kept, rfl, fun entry => (adds entry.1 entry.2).trans (or_congr_right ?_)⟩
      rw [between, previous]
      exact and_congr_left fun _ => eq_comm.trans Option.some_inj.symm
    · next noPrevious =>
      obtain ⟨empty, _⟩ := sound.first_eq noPrevious
      refine ⟨⟨?_, ?_, ?_, ?_, sound.counter, sound.begun⟩, rfl, fun entry => ?_⟩
      · rw [empty]
        rfl
      · rw [empty]
        exact forall_mem_nil _
      · rw [empty]
        exact .nil
      · rw [empty]
        rfl
      · rw [noPrevious]
        exact (or_iff_left fun adds => absurd adds.1 nofun).symm
  · obtain ⟨enqueues, last, position⟩ := state.enqueue_enqueues fifo dmaTask
      (state.enqueues.raised target)
    obtain ⟨kept, adds⟩ := sound.enqueue target (le_refl state.position)
    unfold DmaState.Sound
    rw [wanted, enqueues, last, position]
    refine ⟨kept, rfl, fun entry => (adds entry.1 entry.2).trans (or_congr_right ?_)⟩
    rw [between]
    exact and_congr_left fun _ => eq_comm.trans Option.some_inj.symm

theorem addDmaEnqu_run {state final : DmaState} {dmas : List ExecutableTask}
    (sound : state.Sound fifo firstIndex)
    (res : dmas.foldlM (addDmaEnqu prog fifo) state = .ok final) :
    final.Sound fifo firstIndex ∧ final.position = state.position + dmas.length := by
  induction dmas generalizing state with
  | nil =>
    cases res
    exact ⟨sound, rfl⟩
  | cons dmaTask rest ih =>
    obtain ⟨after, ran, later⟩ := bind_ok res
    obtain ⟨kept, position, _⟩ := addDmaEnqu_sound sound ran
    obtain ⟨further, last⟩ := ih kept later
    refine ⟨further, last.trans ?_⟩
    rw [position, length_cons]
    omega

theorem dmaStart_sound (firstIndex : Nat) : (dmaStart firstIndex).Sound fifo firstIndex :=
  Enqueues.noEnqueues_sound 0

/-! ### The enqueue ops of a FIFO -/

/-- The enqueue ops take the tasks of a FIFO behind the initial ones, in their order and at later
and later barriers. -/
structure FifoEnqueues.Sound (prog : Program) (fifo : Fifo) (firstIndex : Nat)
    (added : FifoEnqueues) : Prop where
  tiled : Tiled (initialCount added.lastDmaWithNoEnqueue) added.enquOps (prog.tasks fifo).length
  sameFifo : ∀ op ∈ added.enquOps, op.fifo = fifo
  ordered : added.enquOps.Pairwise fun earlier later => earlier.barrier < later.barrier
  indices : added.enquOps.map EnqueueOp.index = List.range' firstIndex added.enquOps.length
  counter : added.counter = firstIndex + added.enquOps.length

theorem FifoEnqueues.sound_of_enqueues {enqueues : Enqueues} {last : Option Nat}
    (sound : enqueues.Sound fifo firstIndex (initialCount last) (prog.tasks fifo).length) :
    FifoEnqueues.Sound prog fifo firstIndex ⟨enqueues.counter, enqueues.all, last⟩ :=
  ⟨sound.tiled, sound.sameFifo, sound.ordered, sound.indices, sound.counter⟩

variable {counter : Nat} {added : FifoEnqueues}

theorem addEnqus_sound (same : prog.tasks fifo = primaries.flatMap PrimaryTask.secondaries)
    (res : addEnqus prog fifo counter primaries = .ok added) : added.Sound prog fifo counter := by
  unfold addEnqus at res
  split at res
  · cases res
    have sound : (noEnqueues counter).Sound fifo counter (initialCount none)
        (prog.tasks fifo).length := by
      rw [same]
      exact Enqueues.noEnqueues_sound 0
    exact FifoEnqueues.sound_of_enqueues sound
  · next start rest =>
    split at res
    · cases res
    obtain ⟨state, ran, rest⟩ := bind_ok res
    cases rest
    obtain ⟨sound, position⟩ := addEnqu_run (Enqueues.noEnqueues_sound 0) ran
    refine FifoEnqueues.sound_of_enqueues ?_
    rw [same, ← Nat.zero_add (length _), ← position]
    exact sound

theorem addDmaEnqus_sound {dmas : List ExecutableTask} (same : prog.tasks fifo = dmas)
    (res : addDmaEnqus prog fifo counter dmas = .ok added) : added.Sound prog fifo counter := by
  obtain ⟨state, ran, rest⟩ := bind_ok res
  cases rest
  obtain ⟨sound, position⟩ := addDmaEnqu_run (dmaStart_sound counter) ran
  refine FifoEnqueues.sound_of_enqueues ?_
  rw [same, ← Nat.zero_add dmas.length]
  exact position ▸ sound

theorem addFifo_sound (res : addFifo prog counter fifo = .ok added) :
    added.Sound prog fifo counter := by
  cases fifo with
  | dpu tileIdx => exact addEnqus_sound rfl res
  | shave tileIdx => exact addEnqus_sound rfl res
  | dma tileIdx listIdx => exact addDmaEnqus_sound rfl res

/-! ### The whole pass -/

variable {prog : Program}

/-! ### The FIFOs of a program -/

variable {fifo : Fifo}

theorem mem_fifos : fifo ∈ prog.fifos ↔
    match fifo with
    | .dpu tileIdx => tileIdx < prog.tiles.length
    | .shave tileIdx => tileIdx < prog.tiles.length
    | .dma tileIdx _ => tileIdx < prog.tiles.length := by
  unfold Program.fifos
  cases fifo with
  | dpu tileIdx => simp
  | shave tileIdx => simp
  | dma tileIdx listIdx =>
    have list : listIdx = 0 ∨ listIdx = 1 := by omega
    have found : Fifo.dma tileIdx listIdx ∈ (range prog.tiles.length).flatMap
      (fun tileIdx => [Fifo.dma tileIdx 0, Fifo.dma tileIdx 1]) ↔ tileIdx < prog.tiles.length := by
      rw [mem_flatMap]
      constructor
      · rintro ⟨other, inside, mem⟩
        rcases mem_pair.mp mem with same | same <;>
          exact (Fifo.dma.inj same).1 ▸ mem_range.mp inside
      · intro inside
        refine ⟨tileIdx, mem_range.mpr inside, mem_pair.mpr ?_⟩
        exact list.imp (congrArg _) (congrArg _)
    rw [mem_append, found]
    exact or_iff_right (by simp)

variable {task : ExecutableTask}

theorem mem_fifos_of_task {position : Nat}
    (found : (prog.tasks fifo)[position]? = some task) : fifo ∈ prog.fifos := by
  have nonempty : prog.tasks fifo ≠ [] := by
    intro empty
    rw [empty] at found
    cases found
  rw [mem_fifos]
  by_contra outside
  apply nonempty
  cases fifo with
  | dpu tileIdx =>
    show (prog.invariants tileIdx).flatMap _ = []
    unfold Program.invariants
    rw [getElem?_eq_none (not_lt.mp outside)]
    rfl
  | shave tileIdx =>
    show (prog.ranges tileIdx).flatMap _ = []
    unfold Program.ranges
    rw [getElem?_eq_none (not_lt.mp outside)]
    rfl
  | dma tileIdx listIdx =>
    show prog.dmas tileIdx listIdx = []
    unfold Program.dmas
    rw [getElem?_eq_none (not_lt.mp outside)]
    rfl

/-! ### The enqueue ops of all FIFOs -/

def noSchedule : Schedule := ⟨0, [], []⟩

theorem schedule_ok {scheduled after : Schedule} (res : schedule prog scheduled fifo = .ok after) :
    ∃ added, addFifo prog scheduled.counter fifo = .ok added ∧
      after.counter = added.counter ∧ after.enquOps = scheduled.enquOps ++ added.enquOps ∧
      after.lastDmaWithNoEnqueue = scheduled.lastDmaWithNoEnqueue ++
        added.lastDmaWithNoEnqueue.toList.map fun last => (fifo, last) := by
  obtain ⟨added, ran, rest⟩ := Run.bind_ok res
  cases rest
  exact ⟨added, ran, rfl, rfl, rfl⟩

/-- The enqueue ops that a FIFO adds. -/
def FifoAdds (prog : Program) (scheduled : Schedule) (fifo : Fifo) (op : EnqueueOp) : Prop :=
  ∃ added, addFifo prog scheduled.counter fifo = .ok added ∧ op ∈ added.enquOps

variable {final : Schedule}

section

variable (res : prog.fifos.foldlM (schedule prog) noSchedule = .ok final)
include res

theorem mem_enquOps_iff (op : EnqueueOp) : op ∈ final.enquOps ↔ ∃ scheduled fifo,
      Run.Visits (schedule prog) prog.fifos noSchedule scheduled fifo ∧
        FifoAdds prog scheduled fifo op := by
  refine (Run.foldlM_records (fun scheduled op => op ∈ scheduled.enquOps)
    (FifoAdds prog) prog.fifos noSchedule final ?_ res op).trans
      (or_iff_right not_mem_nil)
  intro scheduled fifo after _ ran op
  obtain ⟨added, ranFifo, _, enquOps, _⟩ := schedule_ok ran
  rw [enquOps, mem_append]
  refine or_congr_right ⟨fun mem => ⟨added, ranFifo, mem⟩, ?_⟩
  rintro ⟨other, ranOther, mem⟩
  cases ranFifo.symm.trans ranOther
  exact mem

/-- The last DMA in front of the enqueue ops that a FIFO adds. -/
def FifoStarts (prog : Program) (scheduled : Schedule) (fifo : Fifo)
    (initial : Fifo × Nat) : Prop :=
  ∃ added, addFifo prog scheduled.counter fifo = .ok added ∧ initial.1 = fifo ∧
    added.lastDmaWithNoEnqueue = some initial.2

theorem mem_lastDmas_iff (initial : Fifo × Nat) :
    initial ∈ final.lastDmaWithNoEnqueue ↔ ∃ scheduled fifo,
      Run.Visits (schedule prog) prog.fifos noSchedule scheduled fifo ∧
        FifoStarts prog scheduled fifo initial := by
  refine (Run.foldlM_records (fun scheduled initial =>
    initial ∈ scheduled.lastDmaWithNoEnqueue) (FifoStarts prog) prog.fifos noSchedule final
      ?_ res
    initial).trans (or_iff_right not_mem_nil)
  intro scheduled fifo after _ ran initial
  obtain ⟨added, ranFifo, _, _, lastDmas⟩ := schedule_ok ran
  rw [lastDmas, mem_append, mem_map]
  refine or_congr_right ?_
  constructor
  · rintro ⟨last, mem, rfl⟩
    exact ⟨added, ranFifo, rfl, Option.mem_toList.mp mem⟩
  · rintro ⟨other, ranOther, same, last⟩
    cases ranFifo.symm.trans ranOther
    exact ⟨initial.2, Option.mem_toList.mpr last, by rw [← same]⟩

end

/-! ### The final order -/

variable {enquOps : List EnqueueOp} {op : EnqueueOp}

theorem mem_bucket {barrier : Nat} {taskType : TaskType} : op ∈ bucket enquOps barrier taskType ↔
      op ∈ enquOps ∧ op.barrier = barrier ∧ op.fifo.taskType = taskType := by
  unfold bucket
  rw [mem_insertionSort, mem_filter, Bool.and_eq_true, beq_iff_eq, beq_iff_eq]

variable {buckets : BucketOrder}

theorem mem_sortEnquOps {barrierCount : Nat} :
    op ∈ sortEnquOps buckets barrierCount enquOps ↔ op ∈ enquOps := by
  unfold sortEnquOps
  rw [mem_append, mem_filter, mem_flatMap, decide_eq_true_eq]
  constructor
  · rintro (⟨mem, _⟩ | ⟨barrier, _, inBuckets⟩)
    · exact mem
    · obtain ⟨taskType, _, inBucket⟩ := mem_flatMap.mp inBuckets
      exact (mem_bucket.mp inBucket).1
  · intro mem
    rcases Nat.lt_or_ge op.barrier barrierCount with below | above
    · exact .inr ⟨op.barrier, mem_range.mpr below, mem_flatMap.mpr
        ⟨op.fifo.taskType, buckets.complete _, mem_bucket.mpr ⟨mem, rfl, rfl⟩⟩⟩
    · exact .inl ⟨mem, above⟩

theorem mem_reindexEnqueueOps (mem : op ∈ reindexEnqueueOps enquOps) :
    ∃ index, { op with index } ∈ enquOps := by
  obtain ⟨position, inside, same⟩ := mem_mapIdx.mp mem
  refine ⟨enquOps[position].index, ?_⟩
  rw [← same]
  exact getElem_mem inside

theorem exists_reindexed (mem : op ∈ enquOps) :
    ∃ index, { op with index } ∈ reindexEnqueueOps enquOps := by
  obtain ⟨position, inside, same⟩ := mem_iff_getElem.mp mem
  refine ⟨position, mem_mapIdx.mpr ⟨position, inside, ?_⟩⟩
  rw [same]

variable {prog : Program} {fifo : Fifo}

/-! ### Tasks and their barriers -/

theorem mem_range_iff {op : EnqueueOp} :
    task ∈ prog.range op ↔ ∃ position : Nat, op.start ≤ position ∧ position ≤ op.stop ∧
      (prog.tasks op.fifo)[position]? = some task := by
  unfold Program.range
  rw [mem_iff_getElem?]
  constructor
  · rintro ⟨idx, found⟩
    have small : idx < op.stop + 1 - op.start := by
      have inside := (List.getElem?_eq_some_iff.mp found).1
      rw [List.length_take] at inside
      exact inside.trans_le (min_le_left _ _)
    rw [getElem?_take_of_lt small, getElem?_drop] at found
    exact ⟨op.start + idx, le_add_right _ _, by omega, found⟩
  · rintro ⟨position, above, below, found⟩
    refine ⟨position - op.start, ?_⟩
    rw [getElem?_take_of_lt (by omega), getElem?_drop, Nat.add_sub_cancel' above]
    exact found

/-- What is enqueued at a barrier may be enqueued there. -/
def Good (prog : Program) (fifo : Fifo) (entry : Nat × Nat) : Prop :=
  ∀ task, (prog.tasks fifo)[entry.1]? = some task → Reprogrammed prog entry.2 task

variable {enquOps : List EnqueueOp}

theorem reprogrammed_ranges_iff (sameFifo : ∀ op ∈ enquOps, op.fifo = fifo) :
    (∀ op ∈ enquOps, ∀ task ∈ prog.range op, Reprogrammed prog op.barrier task) ↔
      ∀ entry : Nat × Nat, Enqueued enquOps entry.1 entry.2 → Good prog fifo entry := by
  constructor
  · rintro reprogrammed ⟨position, barrier⟩ ⟨op, mem, rfl, above, below⟩ task found
    refine reprogrammed op mem task (mem_range_iff.mpr ⟨position, above, below, ?_⟩)
    rw [sameFifo op mem]
    exact found
  · intro good op mem task inRange
    obtain ⟨position, above, below, found⟩ := mem_range_iff.mp inRange
    rw [sameFifo op mem] at found
    exact good (position, op.barrier) ⟨op, mem, rfl, above, below⟩ task found

/-! ### Steps -/

/-- A primary task that is put behind the barrier of the previous enqueue op, or has tasks with
other barriers than those that its target comes from, may be put there. -/
structure KeepsPrimary (prog : Program) (state : PrimaryState) (primary : PrimaryTask) :
    Prop where
  raised : ∀ target previousEnqu, primaryTarget prog state primary = some target →
    state.enqueues.localPreviousEnqu = some previousEnqu → target < previousEnqu.barrier →
    ∀ task ∈ primary.secondaries, Reprogrammed prog previousEnqu.barrier task
  others : ∀ target, primaryTarget prog state primary = some target →
    (∀ previousEnqu, state.enqueues.localPreviousEnqu = some previousEnqu →
      previousEnqu.barrier ≤ target) →
    ∀ task ∈ primary.secondaries, primary.getBarrieredOp ≠ some task →
      Reprogrammed prog target task

/-- A DMA that has no target, or one in front of the barrier of the previous enqueue op, may be put
behind that barrier. -/
def KeepsDma (prog : Program) (state : DmaState) (dmaTask : ExecutableTask) : Prop :=
  ∀ previousEnqu, state.enqueues.localPreviousEnqu = some previousEnqu →
    (∀ target, dmaTarget prog state dmaTask = some target → target < previousEnqu.barrier) →
    Reprogrammed prog previousEnqu.barrier dmaTask

variable {state : PrimaryState} {primary : PrimaryTask} {target : Nat} {dmaTask : ExecutableTask}
  {enqueues : Enqueues}

theorem reprogrammed_primaryTarget {barrieredOp : ExecutableTask}
    (found : primary.getBarrieredOp = some barrieredOp)
    (wanted : primaryTarget prog state primary = some target) :
    Reprogrammed prog target barrieredOp := by
  unfold primaryTarget at wanted
  rw [found] at wanted
  refine fun barr inTask usage previous => dependsOn_of_getMinBarrier wanted ?_
  refine mem_append_left _ (mem_getPreviousUsages.mpr ⟨barr, ?_, previous⟩)
  exact mem_append.mpr (mem_append.mp inTask).symm

theorem reprogrammed_dmaTarget {state : DmaState}
    (wanted : dmaTarget prog state dmaTask = some target) : Reprogrammed prog target dmaTask := by
  unfold dmaTarget at wanted
  split at wanted
  · cases wanted
  · refine reprogrammed_iff_usages.mpr fun usage mem => ?_
    exact dependsOn_of_getMinBarrier wanted (mem_append_left _ mem)

theorem raised_eq_of_le (before : ∀ previousEnqu, enqueues.localPreviousEnqu = some previousEnqu →
      previousEnqu.barrier ≤ target) : enqueues.raised target = target := by
  unfold Enqueues.raised
  cases previous : enqueues.localPreviousEnqu with
  | none => rfl
  | some previousEnqu => exact max_eq_right (before previousEnqu previous)

theorem raised_eq_of_lt {previousEnqu : EnqueueOp}
    (previous : enqueues.localPreviousEnqu = some previousEnqu)
    (behind : target < previousEnqu.barrier) : enqueues.raised target = previousEnqu.barrier := by
  unfold Enqueues.raised
  rw [previous]
  exact max_eq_left behind.le

theorem raised_cases (enqueues : Enqueues) (target : Nat) :
    (∃ previousEnqu, enqueues.localPreviousEnqu = some previousEnqu ∧
      target < previousEnqu.barrier) ∨
    ∀ previousEnqu, enqueues.localPreviousEnqu = some previousEnqu →
      previousEnqu.barrier ≤ target := by
  by_cases behind : ∃ previousEnqu, enqueues.localPreviousEnqu = some previousEnqu ∧
      target < previousEnqu.barrier
  · exact .inl behind
  · exact .inr fun previousEnqu previous =>
      not_lt.mp fun less => behind ⟨previousEnqu, previous, less⟩

theorem keepsPrimary_iff (wanted : primaryTarget prog state primary = some target) :
    KeepsPrimary prog state primary ↔ ∀ task ∈ primary.secondaries,
      Reprogrammed prog (state.enqueues.raised target) task := by
  rcases raised_cases state.enqueues target with ⟨previousEnqu, previous, behind⟩ | before
  · rw [raised_eq_of_lt previous behind]
    refine ⟨fun keeps => keeps.raised target previousEnqu wanted previous behind, fun all => ?_⟩
    refine ⟨?_, ?_⟩
    · intro _ other _ found _
      cases previous.symm.trans found
      exact all
    · intro other found before
      cases wanted.symm.trans found
      exact absurd (before previousEnqu previous) behind.not_ge
  · rw [raised_eq_of_le before]
    constructor
    · intro keeps task mem
      by_cases same : primary.getBarrieredOp = some task
      · exact reprogrammed_primaryTarget same wanted
      · exact keeps.others target wanted before task mem same
    · refine fun all => ⟨?_, ?_⟩
      · intro other previousEnqu found previous behind
        cases wanted.symm.trans found
        exact absurd (before previousEnqu previous) behind.not_ge
      · intro other found _ task mem _
        cases wanted.symm.trans found
        exact all task mem

theorem keepsDma_iff {state : DmaState} :
    KeepsDma prog state dmaTask ↔ ∀ barrier, dmaBarrier prog state dmaTask = some barrier →
      Reprogrammed prog barrier dmaTask := by
  unfold KeepsDma dmaBarrier
  cases wanted : dmaTarget prog state dmaTask with
  | none =>
    constructor
    · intro keeps barrier found
      obtain ⟨previousEnqu, previous, rfl⟩ := Option.map_eq_some_iff.mp found
      exact keeps previousEnqu previous nofun
    · intro all previousEnqu previous _
      exact all previousEnqu.barrier (Option.map_eq_some_iff.mpr ⟨previousEnqu, previous, rfl⟩)
  | some target =>
    dsimp only
    rcases raised_cases state.enqueues target with ⟨previousEnqu, previous, behind⟩ | before
    · rw [raised_eq_of_lt previous behind]
      constructor
      · rintro keeps barrier ⟨⟩
        refine keeps previousEnqu previous fun other found => ?_
        cases found
        exact behind
      · intro all other found _
        cases previous.symm.trans found
        exact all _ rfl
    · rw [raised_eq_of_le before]
      refine iff_of_true ?_ ?_
      · intro previousEnqu previous behind
        exact absurd (before previousEnqu previous) (behind target rfl).not_ge
      · rintro barrier ⟨⟩
        exact reprogrammed_dmaTarget wanted

/-! ### FIFOs -/

def KeepsPrimaries (prog : Program) (fifo : Fifo) (counter : Nat)
    (primaries : List PrimaryTask) : Prop :=
  ∀ fetchTask state primary, primaries.head?.bind PrimaryTask.fetchTask = some fetchTask →
    Run.Visits (addEnqu prog fifo) primaries ⟨noEnqueues counter, fetchTask, true, 0⟩
      state primary → KeepsPrimary prog state primary

def KeepsDmas (prog : Program) (fifo : Fifo) (counter : Nat) (dmas : List ExecutableTask) : Prop :=
  ∀ state dmaTask, Run.Visits (addDmaEnqu prog fifo) dmas (dmaStart counter) state dmaTask →
    KeepsDma prog state dmaTask

theorem getElem?_secondaries {before after : List PrimaryTask} {idx : Nat}
    (small : idx < primary.secondaries.length) :
    ((before ++ primary :: after).flatMap PrimaryTask.secondaries)[
      (before.flatMap PrimaryTask.secondaries).length + idx]? = primary.secondaries[idx]? := by
  rw [flatMap_append, getElem?_append_right (Nat.le_add_right _ _),
    Nat.add_sub_cancel_left, flatMap_cons, getElem?_append_left small]

variable {counter : Nat} {added : FifoEnqueues}

theorem keepsPrimaries_iff (same : prog.tasks fifo = primaries.flatMap PrimaryTask.secondaries)
    (res : addEnqus prog fifo counter primaries = .ok added) :
    (∀ entry : Nat × Nat, Enqueued added.enquOps entry.1 entry.2 → Good prog fifo entry) ↔
      KeepsPrimaries prog fifo counter primaries := by
  unfold addEnqus at res
  split at res
  · cases res
    refine iff_of_true (fun _ ⟨_, mem, _⟩ => absurd mem not_mem_nil) ?_
    exact fun _ _ _ found => absurd found nofun
  · next start rest =>
    split at res
    · cases res
    next fetchTask found =>
    obtain ⟨final, ran, ended⟩ := bind_ok res
    cases ended
    have sound : ∀ state primary, Run.Visits (addEnqu prog fifo) (start :: rest)
        ⟨noEnqueues counter, fetchTask, true, 0⟩ state primary →
        state.enqueues.Sound fifo counter 0 state.position ∧
          ∀ idx < primary.secondaries.length,
            (prog.tasks fifo)[state.position + idx]? = primary.secondaries[idx]? := by
      rintro state primary ⟨before, after, split, reached⟩
      obtain ⟨kept, position⟩ := addEnqu_run (Enqueues.noEnqueues_sound 0) reached
      refine ⟨kept, fun idx small => ?_⟩
      rw [same, split, position, zero_add]
      exact getElem?_secondaries small
    have records := foldlM_records
      (fun (state : PrimaryState) (entry : Nat × Nat) =>
        Enqueued state.enqueues.all entry.1 entry.2) (PrimaryAdds prog) _ _ _
      (fun state primary after visits ran => (addEnqu_sound (sound state primary visits).1 ran).2)
      ran
    have steps : ∀ state primary, Run.Visits (addEnqu prog fifo) (start :: rest)
        ⟨noEnqueues counter, fetchTask, true, 0⟩ state primary →
        (KeepsPrimary prog state primary ↔
          ∀ entry, PrimaryAdds prog state primary entry → Good prog fifo entry) := by
      intro state primary visits
      obtain ⟨after, ranStep⟩ := visits.ok ran
      obtain ⟨target, wanted, _⟩ := addEnqu_ok ranStep
      have places := (sound state primary visits).2
      rw [keepsPrimary_iff wanted]
      constructor
      · rintro all ⟨position, barrier⟩ ⟨other, otherWanted, rfl, above, below⟩ task here
        cases wanted.symm.trans otherWanted
        obtain ⟨idx, rfl⟩ := Nat.exists_eq_add_of_le above
        rw [places idx (Nat.add_lt_add_iff_left.mp below)] at here
        exact all task (mem_of_getElem? here)
      · intro good task mem
        obtain ⟨idx, here⟩ := mem_iff_getElem?.mp mem
        have small := (List.getElem?_eq_some_iff.mp here).1
        exact good (state.position + idx, _) ⟨target, wanted, rfl, le_add_right _ _,
          Nat.add_lt_add_left small _⟩ task ((places idx small).trans here)
    constructor
    · intro good other state primary head visits
      cases found.symm.trans head
      exact (steps state primary visits).mpr fun entry adds =>
        good entry ((records entry).mpr (.inr ⟨state, primary, visits, adds⟩))
    · intro keeps entry enqueued
      rcases (records entry).mp enqueued with ⟨_, mem, _⟩ | ⟨state, primary, visits, adds⟩
      · cases mem
      · exact (steps state primary visits).mp (keeps fetchTask state primary found visits)
          entry adds

theorem keepsDmas_iff {dmas : List ExecutableTask} (same : prog.tasks fifo = dmas)
    (res : addDmaEnqus prog fifo counter dmas = .ok added) :
    (∀ entry : Nat × Nat, Enqueued added.enquOps entry.1 entry.2 → Good prog fifo entry) ↔
      KeepsDmas prog fifo counter dmas := by
  obtain ⟨final, ran, ended⟩ := bind_ok res
  cases ended
  have sound : ∀ state dmaTask, Run.Visits (addDmaEnqu prog fifo) dmas (dmaStart counter)
      state dmaTask → state.Sound fifo counter ∧
        (prog.tasks fifo)[state.position]? = some dmaTask := by
    rintro state dmaTask ⟨before, after, split, reached⟩
    obtain ⟨kept, position⟩ := addDmaEnqu_run (dmaStart_sound counter) reached
    refine ⟨kept, ?_⟩
    have start : (dmaStart counter).position + before.length = before.length := zero_add _
    rw [same, split, position, start, getElem?_append_right le_rfl, Nat.sub_self]
    rfl
  have records := foldlM_records
    (fun (state : DmaState) (entry : Nat × Nat) =>
      Enqueued state.enqueues.all entry.1 entry.2) (DmaAdds prog) _ _ _
    (fun state dmaTask after visits ran =>
      (addDmaEnqu_sound (sound state dmaTask visits).1 ran).2.2) ran
  have steps : ∀ state dmaTask, Run.Visits (addDmaEnqu prog fifo) dmas (dmaStart counter)
      state dmaTask → (KeepsDma prog state dmaTask ↔
        ∀ entry, DmaAdds prog state dmaTask entry → Good prog fifo entry) := by
    intro state dmaTask visits
    have place := (sound state dmaTask visits).2
    rw [keepsDma_iff]
    constructor
    · rintro all ⟨position, barrier⟩ ⟨found, rfl⟩ task here
      cases place.symm.trans here
      exact all barrier found
    · intro good barrier found
      exact good (state.position, barrier) ⟨found, rfl⟩ dmaTask place
  constructor
  · intro good state dmaTask visits
    exact (steps state dmaTask visits).mpr fun entry adds =>
      good entry ((records entry).mpr (.inr ⟨state, dmaTask, visits, adds⟩))
  · intro keeps entry enqueued
    rcases (records entry).mp enqueued with ⟨_, mem, _⟩ | ⟨state, dmaTask, visits, adds⟩
    · cases mem
    · exact (steps state dmaTask visits).mp (keeps state dmaTask visits) entry adds

/-! ### Programs -/

def KeepsFifo (prog : Program) (counter : Nat) : Fifo → Prop
  | .dpu tileIdx => KeepsPrimaries prog (.dpu tileIdx) counter (prog.invariants tileIdx)
  | .shave tileIdx => KeepsPrimaries prog (.shave tileIdx) counter (prog.ranges tileIdx)
  | .dma tileIdx listIdx =>
    KeepsDmas prog (.dma tileIdx listIdx) counter (prog.dmas tileIdx listIdx)

/-- At every step of every FIFO, a task that is not put behind its own target may be put where it
is. -/
def KeepsUsages (prog : Program) : Prop :=
  ∀ scheduled fifo, Run.Visits (schedule prog) prog.fifos noSchedule scheduled fifo →
    KeepsFifo prog scheduled.counter fifo

theorem keepsFifo_iff (res : addFifo prog counter fifo = .ok added) :
    (∀ op ∈ added.enquOps, ∀ task ∈ prog.range op, Reprogrammed prog op.barrier task) ↔
      KeepsFifo prog counter fifo := by
  rw [reprogrammed_ranges_iff (addFifo_sound res).sameFifo]
  cases fifo with
  | dpu tileIdx => exact keepsPrimaries_iff rfl res
  | shave tileIdx => exact keepsPrimaries_iff rfl res
  | dma tileIdx listIdx => exact keepsDmas_iff rfl res

theorem addEnqueueOps_ok {lastDmas : List (Fifo × Nat)}
    (res : addEnqueueOps buckets prog = .ok (enquOps, lastDmas)) :
    ∃ added, prog.fifos.foldlM (schedule prog) noSchedule = .ok added ∧
      enquOps = reindexEnqueueOps
        (sortEnquOps buckets prog.barriers.length added.enquOps) ∧
      lastDmas = added.lastDmaWithNoEnqueue ∧
      ∃ counter, verifyEnqueueBarrierIsNotBlockedByFutureTask prog enquOps lastDmas =
        .ok counter := by
  obtain ⟨added, ran, rest⟩ := bind_ok res
  obtain ⟨counter, verified, ended⟩ := bind_ok rest
  cases ended
  exact ⟨added, ran, rfl, rfl, counter, verified⟩

/-- The barrier of every enqueue op comes after the previous usages of the barriers of its tasks
exactly when every task that is not put behind its own target may be put where it is. -/
theorem reprogrammed_iff {buckets : BucketOrder} {enquOps : List EnqueueOp}
    {lastDmas : List (Fifo × Nat)} (res : addEnqueueOps buckets prog = .ok (enquOps, lastDmas)) :
    (∀ op ∈ enquOps, ∀ task ∈ prog.range op, Reprogrammed prog op.barrier task) ↔
      KeepsUsages prog := by
  obtain ⟨added, ran, rfl, _⟩ := addEnqueueOps_ok res
  have all : (∀ op ∈ reindexEnqueueOps (sortEnquOps buckets prog.barriers.length added.enquOps),
        ∀ task ∈ prog.range op, Reprogrammed prog op.barrier task) ↔
      ∀ op ∈ added.enquOps, ∀ task ∈ prog.range op, Reprogrammed prog op.barrier task := by
    constructor
    · intro every op mem
      obtain ⟨idx, reindexed⟩ := exists_reindexed (mem_sortEnquOps.mpr mem)
      have good := every _ reindexed
      exact good
    · intro every op mem
      obtain ⟨idx, inSorted⟩ := mem_reindexEnqueueOps mem
      have good := every _ (mem_sortEnquOps.mp inSorted)
      exact good
  rw [all]
  constructor
  · intro every scheduled fifo visits
    obtain ⟨after, ranFifo⟩ := visits.ok ran
    obtain ⟨fifoAdded, here, _⟩ := schedule_ok ranFifo
    refine (keepsFifo_iff here).mp fun op mem => every op ?_
    exact (mem_enquOps_iff ran op).mpr ⟨scheduled, fifo, visits, fifoAdded, here, mem⟩
  · intro keeps op mem
    obtain ⟨scheduled, fifo, visits, fifoAdded, here, inFifo⟩ := (mem_enquOps_iff ran op).mp mem
    exact (keepsFifo_iff here).mpr (keeps scheduled fifo visits) op inFifo

def hashOrder : BucketOrder where
  types := [.DMA, .DPUVariant, .ActKernelInvocation]
  nodup := by decide
  complete := by rintro (_ | _ | _) <;> decide

def dmaTile (first second : List ExecutableTask) : Tile where
  invariants := []
  ranges := []
  dmas listIdx := if listIdx = 0 then first else second

/-- Two physical barriers that are used twice each, and the final barrier. -/
def fiveBarriers : List ConfigureBarrierOp :=
  [⟨0, [], some 1⟩, ⟨1, [], some 1⟩, ⟨0, [], some 1⟩, ⟨1, [], some 1⟩, ⟨2, [0, 1, 2, 3], some 0⟩]

/-- Each barrier is produced and consumed in a FIFO of its own. -/
def fourFifos : Program where
  barriers := fiveBarriers
  tiles := [ dmaTile [⟨[], [3]⟩, ⟨[3], [4]⟩] [⟨[], [2]⟩, ⟨[2], [4]⟩],
    dmaTile [⟨[], [0]⟩, ⟨[0], [4]⟩] [⟨[], [1]⟩, ⟨[1], [4]⟩]]

theorem reprogrammed_iff_fourFifos :
    (∀ op ∈ [⟨0, 0, .dma 0 1, 0, 1⟩, ⟨1, 1, .dma 0 0, 0, 1⟩], ∀ task ∈ fourFifos.range op,
      Reprogrammed fourFifos op.barrier task) ↔ KeepsUsages fourFifos :=
  reprogrammed_iff (show addEnqueueOps hashOrder fourFifos = .ok
    ([⟨0, 0, .dma 0 1, 0, 1⟩, ⟨1, 1, .dma 0 0, 0, 1⟩], [(.dma 1 0, 1), (.dma 1 1, 1)]) from rfl)

/-- The second DMA of the first FIFO wants to be enqueued at barrier 0, but the first one is
enqueued at barrier 1. -/
def raisedDma : Program where
  barriers := fiveBarriers
  tiles := [ dmaTile [⟨[], [3]⟩, ⟨[], [2]⟩, ⟨[3], [4]⟩, ⟨[2], [4]⟩] [⟨[], [0]⟩, ⟨[0], [4]⟩],
    dmaTile [⟨[], [1]⟩, ⟨[1], [4]⟩] []]

theorem raisedDma_not_reprogrammed :
    addEnqueueOps hashOrder raisedDma =
        .ok ([⟨0, 1, .dma 0 0, 0, 3⟩], [(.dma 0 1, 1), (.dma 1 0, 1)]) ∧
      ⟨[], [2]⟩ ∈ raisedDma.range ⟨0, 1, .dma 0 0, 0, 3⟩ ∧
      PreviousUsage raisedDma.barriers 2 0 ∧ ¬ DependsOn raisedDma.barriers 1 0 := by
  refine ⟨rfl, by decide, ⟨0, rfl, rfl, by decide, ?_⟩, fun depends => ?_⟩
  · intro other above below
    obtain rfl : other = 1 := by omega
    exact nofun
  · rcases depends.cases_head with same | ⟨dep, mem, _⟩
    · exact absurd same (by decide)
    · exact absurd mem not_mem_nil

end NpuPlugin.AddEnqueueOps
