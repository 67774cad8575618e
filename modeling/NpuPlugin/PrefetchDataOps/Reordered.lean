/-
This file proves that each of the two rounds schedules all operations, and that in the second one
every operation begins when its dependencies have ended. Then the schedule is reordered without an
error, and the new order puts every operation after those it depends on, as long as the cycles of
the second round do not wrap around.
-/

import NpuPlugin.Library.Insertion
import NpuPlugin.PrefetchDataOps.Model

namespace NpuPlugin.PrefetchDataOps

open List Run
open DependencyOrder (Ordered)
open FeasibleMemoryScheduler (ExecutorKind)

section

open Bool Nat

variable {prog : Program} {prefetchOpsDefined : Bool} {state : State}

/-! ### Transfers -/

variable {opIdx : Nat} {optimalCycleEnd : UInt64}

section

variable (consistent : Consistent prog prefetchOpsDefined state)
include consistent

theorem Consistent.getDependencyCycleEnd_ok (ready : prog.getOpDeps opIdx ⊆ state.scheduledOps) :
    ∃ cycleEnd, prog.getDependencyCycleEnd state opIdx = .ok cycleEnd ∧
      cycleEnd.toNat ≤ state.used ∧ ∀ dep ∈ prog.getOpDeps opIdx,
        ∃ other ∈ state.operationCycles, other.opIdx = dep ∧
          other.getCycleEnd.toNat ≤ cycleEnd.toNat := by
  refine foldlM_done (fun done (cycleEnd : UInt64) => cycleEnd.toNat ≤ state.used ∧ ∀ dep ∈ done,
    ∃ other ∈ state.operationCycles, other.opIdx = dep ∧
      other.getCycleEnd.toNat ≤ cycleEnd.toNat) (prog.getOpDeps opIdx) ?_ 0
    ⟨zero_le _, forall_mem_nil _⟩
  intro done depIdx rest same cycleEnd ⟨below, waited⟩
  have isDep : depIdx ∈ prog.getOpDeps opIdx := same ▸ mem_append_right _ mem_cons_self
  obtain ⟨info, found⟩ := Option.isSome_iff_exists.mp (State.isScheduled_iff.mpr (ready isDep))
  obtain ⟨mem, sameOp⟩ := State.mem_of_cyclesOf found
  refine ⟨max cycleEnd info.getCycleEnd, by rw [found], ?_, ?_⟩
  · rw [Words.toNat_max]
    exact max_le below (consistent.bounded info mem)
  · rw [forall_mem_append, Words.toNat_max]
    refine ⟨fun dep isDone => ?_, forall_mem_singleton.mpr ⟨info, mem, sameOp, le_max_right _ _⟩⟩
    obtain ⟨other, otherMember, isOther, ends⟩ := waited dep isDone
    exact ⟨other, otherMember, isOther, ends.trans (le_max_left _ _)⟩

def SchedulesOne (prog : Program) (prefetchOpsDefined : Bool) (state : State) (opIdx : Nat)
    (res : Except Failure State) : Prop :=
  ∃ after info, res = .ok after ∧ info.opIdx = opIdx ∧
    after.operationCycles = state.operationCycles ++ [info] ∧
    Consistent prog prefetchOpsDefined after

theorem Consistent.scheduleDMA (admitted : prog.Admitted) (fits : prog.totalCost < 2 ^ 64)
    (unscheduled : opIdx ∉ state.scheduledOps) (original : opIdx ∈ prog.originalOps)
    (ready : prog.getOpDeps opIdx ⊆ state.scheduledOps)
    (early : optimalCycleEnd.toNat ≤ state.used) : SchedulesOne prog prefetchOpsDefined state opIdx
      (prog.scheduleDMA state opIdx optimalCycleEnd) := by
  obtain ⟨dependencyCycleEnd, waited, below, ends⟩ := consistent.getDependencyCycleEnd_ok ready
  obtain ⟨cycleCost, found, same⟩ := Program.operationCycleCost_of_pos
    (admitted.cost_pos opIdx original)
  have free := consistent.getNextFreePipelineCycle_le fits .dmaNN
  have total := consistent.used_add_le unscheduled original
  -- The earliest cycle is raised to the optimal one when the cost leaves room for it.
  have begins : ∃ cycleBegin, prog.scheduleDMA state opIdx optimalCycleEnd =
      .ok (state.scheduleOp ⟨opIdx, cycleBegin, cycleCost, .dmaNN⟩) ∧
      cycleBegin.toNat ≤ state.used ∧ dependencyCycleEnd.toNat ≤ cycleBegin.toNat := by
    refine ⟨_, (ok_bind waited _).trans (ok_bind (Program.getOperationCycleCost_ok found) _), ?_⟩
    split
    · rename_i roomy
      rw [Words.toNat_max, Words.toNat_max, UInt64.toNat_sub_of_le _ _ roomy]
      omega
    · rw [Words.toNat_max]
      omega
  obtain ⟨cycleBegin, scheduled, beginBelow, late⟩ := begins
  refine ⟨_, ⟨opIdx, cycleBegin, cycleCost, .dmaNN⟩, scheduled, rfl,
    State.recordCycles_of_new unscheduled, consistent.scheduleOp ?_ beginBelow⟩
  refine ⟨unscheduled, original, found, ?_, fun _ => ⟨beginBelow, fun dep isDep => ?_⟩⟩
  · show (cycleBegin + cycleCost).toNat ≤ state.used + cycleCost.toNat
    rw [Words.toNat_add (by omega)]
    exact Nat.add_le_add_right beginBelow _
  · obtain ⟨other, mem, isOther, ended⟩ := ends dep isDep
    exact ⟨other, mem, isOther, ended.trans late⟩

end

theorem Consistent.schedulePrefetchDMA (consistent : Consistent prog false state)
    (admitted : prog.Admitted) (unscheduled : opIdx ∉ state.scheduledOps)
    (original : opIdx ∈ prog.originalOps) (isDataOp : prog.isDataOp opIdx = true)
    (early : optimalCycleEnd.toNat ≤ state.used) :
    SchedulesOne prog false state opIdx
      (prog.schedulePrefetchDMA state opIdx optimalCycleEnd) := by
  obtain ⟨cycleCost, found, same⟩ := Program.operationCycleCost_of_pos
    (admitted.cost_pos opIdx original)
  have fitting : ∀ cycleEnd : UInt64, cycleEnd.toNat ≤ state.used + cycleCost.toNat →
      Fitting prog false state ⟨opIdx, cycleEnd - cycleCost, cycleCost, .dmaNN⟩ := by
    intro cycleEnd below
    refine ⟨unscheduled, original, found, ?_, fun defined => absurd defined Bool.false_ne_true⟩
    show (cycleEnd - cycleCost + cycleCost).toNat ≤ _
    rw [UInt64.sub_add_cancel]
    exact below
  -- The prefetch FIFO may have been changed before, which keeps its operations.
  have schedules : ∀ (cycleEnd : UInt64) (stalls pipeline : List CycleInfo),
      cycleEnd.toNat ≤ state.used + cycleCost.toNat →
      pipeline.map CycleInfo.opIdx = state.prefetchPipeline.map CycleInfo.opIdx →
      SchedulesOne prog false state opIdx (.ok ({ state with
        prefetchPipelineStalls := stalls, prefetchPipeline := pipeline }.schedulePrefetchOp
          ⟨opIdx, cycleEnd - cycleCost, cycleCost, .dmaNN⟩)) := by
    intro cycleEnd stalls pipeline below kept
    exact ⟨_, _, rfl, rfl, State.recordCycles_of_new unscheduled,
      consistent.schedulePrefetchOp (fitting cycleEnd below) isDataOp kept⟩
  have optimal : optimalCycleEnd.toNat ≤ state.used + cycleCost.toNat := le_add_right_of_le early
  have unfolded : prog.schedulePrefetchDMA state opIdx optimalCycleEnd = _ :=
    ok_bind (Program.getOperationCycleCost_ok found) _
  rw [unfolded]
  by_cases stalls : state.getNextFreePrefetchCycle + cycleCost < optimalCycleEnd
  · rw [if_pos stalls]
    exact schedules optimalCycleEnd _ state.prefetchPipeline optimal rfl
  · rw [if_neg stalls]
    by_cases late : state.getNextFreePrefetchCycle + cycleCost > optimalCycleEnd
    · rw [if_pos late]
      have raised : (max cycleCost optimalCycleEnd).toNat ≤ state.used + cycleCost.toNat := by
        rw [Words.toNat_max]
        omega
      by_cases none : state.prefetchPipelineStalls.isEmpty = true
      · rw [if_pos none]
        exact schedules _ state.prefetchPipelineStalls state.prefetchPipeline raised rfl
      · rw [if_neg none]
        obtain ⟨stallsLeft, pipeline, reduced, kept⟩ := reducePrefetchPipelineStalls_ok state
          (state.getNextFreePrefetchCycle + cycleCost - optimalCycleEnd)
        rw [reduced]
        exact schedules _ stallsLeft pipeline raised kept
    · rw [if_neg late]
      have equal : state.getNextFreePrefetchCycle + cycleCost = optimalCycleEnd :=
        UInt64.le_antisymm (UInt64.not_lt.mp late) (UInt64.not_lt.mp stalls)
      rw [equal]
      exact schedules optimalCycleEnd state.prefetchPipelineStalls state.prefetchPipeline
        optimal rfl

/-! ### What depends on the transfers -/

/-- Data operations are added to what is scheduled. -/
structure Grown (prog : Program) (state after : State) : Prop where
  kept : state.operationCycles ⊆ after.operationCycles
  added : ∀ opIdx ∈ after.scheduledOps,
    opIdx ∈ state.scheduledOps ∨ prog.isDataOp opIdx = true
  used_le : state.used ≤ after.used

theorem Grown.refl (prog : Program) (state : State) : Grown prog state state :=
  ⟨List.Subset.refl _, fun _ mem => .inl mem, le_refl _⟩

variable {after : State}

theorem Grown.trans {middle : State} (first : Grown prog state middle)
    (second : Grown prog middle after) : Grown prog state after where
  kept := List.Subset.trans first.kept second.kept
  added opIdx mem := (second.added opIdx mem).elim (first.added opIdx) .inr
  used_le := first.used_le.trans second.used_le

theorem Grown.scheduled (grown : Grown prog state after) :
    state.scheduledOps ⊆ after.scheduledOps := map_subset _ grown.kept

theorem Grown.of_concat {info : CycleInfo}
    (recorded : after.operationCycles = state.operationCycles ++ [info])
    (isDataOp : prog.isDataOp info.opIdx = true) : Grown prog state after where
  kept := by
    rw [recorded]
    exact subset_append_left _ _
  added := by
    rw [scheduledOps_concat recorded, forall_mem_append]
    exact ⟨fun _ mem => .inl mem, forall_mem_singleton.mpr (.inr isDataOp)⟩
  used_le := by
    rw [used_concat recorded]
    exact le_add_right _ _

theorem Consistent.foldl_target (consistent : Consistent prog prefetchOpsDefined state)
    (deps : List Nat) (start : UInt64) (below : start.toNat ≤ state.used) :
    ∃ target : UInt64, deps.foldl (fun target dep =>
        match state.cyclesOf dep with
        | none => target
        | some info => max target info.getCycleEnd) start = target ∧
      start.toNat ≤ target.toNat ∧ target.toNat ≤ state.used ∧
      ∀ info ∈ state.operationCycles, info.opIdx ∈ deps →
        info.getCycleEnd.toNat ≤ target.toNat := by
  induction deps generalizing start with
  | nil => exact ⟨start, rfl, le_refl _, below, fun _ _ mem => absurd mem not_mem_nil⟩
  | cons dep rest ih =>
    rw [foldl_cons]
    cases found : state.cyclesOf dep with
    | none =>
      obtain ⟨target, folded, after, bounded, ends⟩ := ih start below
      refine ⟨target, folded, after, bounded, fun info mem isDep => ?_⟩
      rcases mem_cons.mp isDep with isFirst | inRest
      · rw [← isFirst, State.cyclesOf_eq consistent.nodup mem] at found
        cases found
      · exact ends info mem inRest
    | some other =>
      obtain ⟨otherMember, -⟩ := State.mem_of_cyclesOf found
      have raised : (max start other.getCycleEnd).toNat ≤ state.used := by
        rw [Words.toNat_max]
        exact max_le below (consistent.bounded other otherMember)
      obtain ⟨target, folded, after, bounded, ends⟩ := ih _ raised
      rw [Words.toNat_max] at after
      refine ⟨target, folded, (le_max_left _ _).trans after, bounded, fun info mem isDep => ?_⟩
      rcases mem_cons.mp isDep with isFirst | inRest
      · rw [← isFirst, State.cyclesOf_eq consistent.nodup mem] at found
        cases found
        exact (le_max_right _ _).trans after
      · exact ends info mem inRest

/-- With some dependencies of an operation scheduled, the state and the cycle it can begin at. -/
structure Reached (prog : Program) (prefetchOpsDefined : Bool) (state : State) (opIdx : Nat)
    (done : List Nat) (reached : State × UInt64) : Prop where
  consistent : Consistent prog prefetchOpsDefined reached.1
  grown : Grown prog state reached.1
  below : reached.2.toNat ≤ reached.1.used
  scheduled : done ⊆ reached.1.scheduledOps
  ends : ∀ info ∈ reached.1.operationCycles, info.opIdx ∈ prog.getOpDeps opIdx →
    info.getCycleEnd.toNat ≤ reached.2.toNat

theorem Reached.scheduleDependency {depIdx : Nat} {done : List Nat} {reached : State × UInt64}
    (sofar : Reached prog prefetchOpsDefined state opIdx done reached)
    (admitted : prog.Admitted) (fits : prog.totalCost < 2 ^ 64)
    (ready : depIdx ∉ reached.1.scheduledOps → prog.isDataOp depIdx = true ∧
      depIdx ∈ prog.originalOps ∧ prog.getOpDeps depIdx ⊆ reached.1.scheduledOps) :
    ∃ after, prog.scheduleDependency prefetchOpsDefined reached depIdx = .ok after ∧
      Reached prog prefetchOpsDefined state opIdx (done ++ [depIdx]) after := by
  unfold Program.scheduleDependency
  by_cases scheduled : reached.1.isScheduled depIdx = true
  · rw [if_pos scheduled]
    refine ⟨reached, rfl, { sofar with scheduled := ?_ }⟩
    exact append_subset.mpr ⟨sofar.scheduled, cons_subset.mpr
      ⟨State.isScheduled_iff.mp scheduled, nil_subset _⟩⟩
  · rw [if_neg scheduled]
    have unscheduled : depIdx ∉ reached.1.scheduledOps :=
      fun mem => scheduled (State.isScheduled_iff.mpr mem)
    obtain ⟨isDataOp, original, depsReady⟩ := ready unscheduled
    have one : SchedulesOne prog prefetchOpsDefined reached.1 depIdx
        (prog.scheduleDataOp prefetchOpsDefined reached.1 depIdx reached.2) := by
      unfold Program.scheduleDataOp
      split
      · exact sofar.consistent.scheduleDMA admitted fits unscheduled original depsReady sofar.below
      · rename_i firstRound
        cases prefetchOpsDefined with
        | false =>
          exact sofar.consistent.schedulePrefetchDMA admitted unscheduled original isDataOp
            sofar.below
        | true => exact absurd rfl firstRound
    obtain ⟨after, info, res, rfl, recorded, consistent⟩ := one
    have mem : info ∈ after.operationCycles := by
      rw [recorded]
      exact mem_append_right _ (mem_singleton_self _)
    have grown := Grown.of_concat recorded isDataOp
    have raised : (max reached.2 info.getCycleEnd).toNat ≤ after.used := by
      rw [Words.toNat_max]
      exact max_le (sofar.below.trans grown.used_le) (consistent.bounded info mem)
    refine ⟨(after, max reached.2 info.getCycleEnd), ?_, consistent, sofar.grown.trans grown,
      raised, ?_, ?_⟩
    · refine (ok_bind res _).trans ?_
      rw [State.cyclesOf_eq consistent.nodup mem]
      rfl
    · exact append_subset.mpr ⟨List.Subset.trans sofar.scheduled grown.scheduled, cons_subset.mpr
        ⟨mem_map_of_mem mem, nil_subset _⟩⟩
    · show ∀ other ∈ after.operationCycles, _ → _ ≤ (max reached.2 info.getCycleEnd).toNat
      rw [recorded, forall_mem_append, Words.toNat_max]
      refine ⟨fun other before isDep => (sofar.ends other before isDep).trans (le_max_left _ _), ?_⟩
      exact forall_mem_singleton.mpr fun _ => le_max_right _ _

/-! ### Prefetching -/

section

variable (consistent : Consistent prog prefetchOpsDefined state) (admitted : prog.Admitted)
  (fits : prog.totalCost < 2 ^ 64) (dmaTargetEndCycle : UInt64)
include consistent admitted fits dmaTargetEndCycle

/-- Data operations are prefetched when what they depend on is scheduled. -/
theorem Consistent.prefetchFrom (pipeline : List CycleInfo)
    (dataOps : ∀ info ∈ pipeline, prog.isDataOp info.opIdx = true ∧ info.opIdx ∈ prog.originalOps) :
    ∃ after left, prog.prefetchFrom dmaTargetEndCycle state pipeline = .ok (after, left) ∧
      Consistent prog prefetchOpsDefined after ∧ Grown prog state after ∧
      left ⊆ pipeline := by
  induction pipeline generalizing state with
  | nil => exact ⟨state, [], rfl, consistent, Grown.refl _ _, List.Subset.refl _⟩
  | cons nextDMA later ih =>
    obtain ⟨⟨isDataOp, original⟩, others⟩ := forall_mem_cons.mp dataOps
    rw [Program.prefetchFrom]
    split
    · obtain ⟨after, left, res, kept, grown, subset⟩ := ih consistent others
      exact ⟨after, nextDMA :: left, ok_bind res _, kept, grown, cons_subset_cons _ subset⟩
    · rename_i ready
      split
      · obtain ⟨after, left, res, kept, grown, subset⟩ := ih consistent others
        exact ⟨after, left, res, kept, grown, subset_cons_of_subset _ subset⟩
      · rename_i unscheduled
        split
        · exact ⟨state, nextDMA :: later, rfl, consistent, Grown.refl _ _, List.Subset.refl _⟩
        · have depsReady : prog.getOpDeps nextDMA.opIdx ⊆ state.scheduledOps := by
            intro dep isDep
            rw [not_eq_true', not_eq_false] at ready
            exact State.isScheduled_iff.mp (all_eq_true.mp ready dep isDep)
          have early : (0 : UInt64).toNat ≤ state.used := zero_le _
          obtain ⟨middle, info, res, same, recorded, middleConsistent⟩ :=
            consistent.scheduleDMA admitted fits
              (fun mem => unscheduled (State.isScheduled_iff.mpr mem)) original depsReady
              early
          obtain ⟨after, left, rest, kept, grown, subset⟩ := ih middleConsistent others
          refine ⟨after, left, (ok_bind res _).trans rest, kept, ?_, subset_cons_of_subset _ subset⟩
          exact (Grown.of_concat recorded (same.symm ▸ isDataOp)).trans grown

theorem Consistent.prefetchDataOps :
    ∃ after, prog.prefetchDataOps state dmaTargetEndCycle = .ok after ∧
      Consistent prog prefetchOpsDefined after ∧ Grown prog state after := by
  obtain ⟨after, left, res, kept, grown, subset⟩ := consistent.prefetchFrom admitted fits
    dmaTargetEndCycle state.prefetchPipeline consistent.prefetched
  refine ⟨{ after with prefetchPipeline := left }, ok_bind res _, ?_, ?_⟩
  · exact ⟨kept.nodup, kept.original, kept.cost, kept.bounded, kept.queued,
      fun info mem => consistent.prefetched info (subset mem), kept.waited⟩
  · exact ⟨grown.kept, grown.added, grown.used_le⟩

end

/-! ### A round -/

/-- The compute operations up to a place are scheduled, with what they depend on and some data
operations besides. -/
structure Done (prog : Program) (prefetchOpsDefined : Bool) (before : List Nat)
    (state : State) : Prop where
  consistent : Consistent prog prefetchOpsDefined state
  covers : ∀ opIdx ∈ before, prog.isDataOp opIdx = false →
    opIdx ∈ state.scheduledOps ∧ prog.getOpDeps opIdx ⊆ state.scheduledOps
  only : ∀ opIdx ∈ state.scheduledOps, prog.isDataOp opIdx = false → opIdx ∈ before

variable {before after : List Nat} {opIdx : Nat}

section

variable (done : Done prog prefetchOpsDefined before state)
include done

/-- A data operation is kept in mind as done without being scheduled. -/
theorem Done.skip (skipped : prog.isDataOp opIdx = true) :
    Done prog prefetchOpsDefined (before ++ [opIdx]) state where
  consistent := done.consistent
  covers := by
    rw [forall_mem_append, forall_mem_singleton]
    exact ⟨done.covers, fun isCompute => absurd (isCompute.symm.trans skipped) Bool.false_ne_true⟩
  only other mem isCompute := mem_append_left _ (done.only other mem isCompute)

theorem Done.ready (admitted : prog.Admitted) (same : prog.originalOps = before ++ opIdx :: after)
    (isCompute : prog.isDataOp opIdx = false) {now : State} (grown : Grown prog state now)
    {earlier later : List Nat} {dep : Nat} (deps : prog.getOpDeps opIdx = earlier ++ dep :: later)
    (scheduled : earlier ⊆ now.scheduledOps) (unscheduled : dep ∉ now.scheduledOps) :
    prog.isDataOp dep = true ∧ dep ∈ prog.originalOps ∧
      prog.getOpDeps dep ⊆ now.scheduledOps := by
  have covered : ∀ other ∈ before, prog.isDataOp other = false →
      other ∈ now.scheduledOps ∧ prog.getOpDeps other ⊆ now.scheduledOps := by
    intro other mem otherCompute
    obtain ⟨itself, otherDeps⟩ := done.covers other mem otherCompute
    exact ⟨grown.scheduled itself, List.Subset.trans otherDeps grown.scheduled⟩
  have isDep : dep ∈ prog.getOpDeps opIdx := deps ▸ mem_append_right _ mem_cons_self
  have depBefore : dep ∈ before := admitted.ordered before opIdx after same isDep
  have isDataOp : prog.isDataOp dep = true :=
    of_not_eq_false fun depCompute => unscheduled (covered dep depBefore depCompute).1
  refine ⟨isDataOp, same ▸ mem_append_left _ depBefore, fun prior isPrior => ?_⟩
  obtain ⟨first, second, split⟩ := append_of_mem depBefore
  have priorBefore : prior ∈ before := by
    rw [split]
    refine mem_append_left _ (admitted.ordered first dep (second ++ opIdx :: after) ?_ isPrior)
    rw [same, split, append_assoc, cons_append]
  cases priorData : prog.isDataOp prior with
  | false => exact (covered prior priorBefore priorData).1
  | true =>
    rcases admitted.noUnscheduledData before opIdx after same isCompute earlier dep later deps
      isDataOp prior isPrior priorData with inEarlier | ⟨consumer, mem, consumerCompute, needs⟩
    · exact scheduled inEarlier
    · exact (covered consumer mem consumerCompute).2 needs

theorem Done.scheduleDependenciesForCompute (admitted : prog.Admitted)
    (fits : prog.totalCost < 2 ^ 64) (same : prog.originalOps = before ++ opIdx :: after)
    (isCompute : prog.isDataOp opIdx = false) (executorKind : ExecutorKind) :
    ∃ reached, prog.scheduleDependenciesForCompute prefetchOpsDefined state opIdx executorKind =
        .ok reached ∧
      Reached prog prefetchOpsDefined state opIdx (prog.getOpDeps opIdx) reached := by
  obtain ⟨target, folded, -, below, ends⟩ := done.consistent.foldl_target (prog.getOpDeps opIdx)
    _ (done.consistent.getNextFreePipelineCycle_le fits executorKind)
  refine foldlM_done (Reached prog prefetchOpsDefined state opIdx) _ ?_ _ ?_
  · intro earlier dep later deps reached sofar
    exact sofar.scheduleDependency admitted fits
      (done.ready admitted same isCompute sofar.grown deps sofar.scheduled)
  · have start : prog.targetCycleEnd state opIdx executorKind = target := folded
    rw [start]
    exact ⟨done.consistent, Grown.refl _ _, below, nil_subset _, ends⟩

theorem Done.unscheduled (admitted : prog.Admitted)
    (same : prog.originalOps = before ++ opIdx :: after) (isCompute : prog.isDataOp opIdx = false)
    {now : State} (grown : Grown prog state now) : opIdx ∉ now.scheduledOps := by
  intro mem
  rcases grown.added opIdx mem with isScheduled | isDataOp
  · have nodup := admitted.nodup
    rw [same] at nodup
    exact (nodup_append.mp nodup).2.2 _ (done.only opIdx isScheduled isCompute) _
      mem_cons_self rfl
  · exact absurd (isCompute.symm.trans isDataOp) Bool.false_ne_true

end

theorem Reached.finish {ready now : State} {target cycleBegin cycleCost : UInt64}
    (reached : Reached prog prefetchOpsDefined state opIdx (prog.getOpDeps opIdx) (ready, target))
    (done : Done prog prefetchOpsDefined before state) (admitted : prog.Admitted)
    (fits : prog.totalCost < 2 ^ 64) (same : prog.originalOps = before ++ opIdx :: after)
    (isCompute : prog.isDataOp opIdx = false) (consistent : Consistent prog prefetchOpsDefined now)
    (grown : Grown prog ready now) (found : prog.operationCycleCost opIdx = some cycleCost)
    (late : target.toNat ≤ cycleBegin.toNat) (early : cycleBegin.toNat ≤ now.used)
    (executorKind : ExecutorKind) :
    Done prog prefetchOpsDefined (before ++ [opIdx])
      (now.scheduleOp ⟨opIdx, cycleBegin, cycleCost, executorKind⟩) := by
  have whole : Grown prog state now := reached.grown.trans grown
  have original : opIdx ∈ prog.originalOps := same ▸ mem_append_right _ mem_cons_self
  have unscheduled := done.unscheduled admitted same isCompute whole
  have total := consistent.used_add_le unscheduled original
  have costs := Program.costOf_eq found
  have recorded := State.recordCycles_of_new
    (show (⟨opIdx, cycleBegin, cycleCost, executorKind⟩ : CycleInfo).opIdx ∉ now.scheduledOps from
      unscheduled)
  have depsScheduled : prog.getOpDeps opIdx ⊆ now.scheduledOps :=
    List.Subset.trans reached.scheduled grown.scheduled
  have scheduled : (now.scheduleOp ⟨opIdx, cycleBegin, cycleCost, executorKind⟩).scheduledOps =
      now.scheduledOps ++ [opIdx] := scheduledOps_concat recorded
  have consistentAfter : Consistent prog prefetchOpsDefined
      (now.scheduleOp ⟨opIdx, cycleBegin, cycleCost, executorKind⟩) := by
    refine consistent.scheduleOp ⟨unscheduled, original, found, ?_, fun _ => ⟨early, ?_⟩⟩ early
    · show (cycleBegin + cycleCost).toNat ≤ now.used + cycleCost.toNat
      rw [Words.toNat_add (by omega)]
      exact Nat.add_le_add_right early _
    · intro dep isDep
      obtain ⟨info, mem, isInfo⟩ := mem_map.mp (reached.scheduled isDep)
      refine ⟨info, grown.kept mem, isInfo, (reached.ends info mem ?_).trans late⟩
      rw [isInfo]
      exact isDep
  refine ⟨consistentAfter, ?_, ?_⟩
  · rw [scheduled, forall_mem_append, forall_mem_singleton]
    refine ⟨fun other mem otherCompute => ?_, fun _ => ?_⟩
    · obtain ⟨itself, deps⟩ := done.covers other mem otherCompute
      exact ⟨mem_append_left _ (whole.scheduled itself), subset_append_of_subset_left _
        (List.Subset.trans deps whole.scheduled)⟩
    · exact ⟨mem_append_right _ (mem_singleton_self _),
        subset_append_of_subset_left _ depsScheduled⟩
  · intro other mem otherCompute
    rw [scheduled, mem_append] at mem
    refine mem_append.mpr (mem.imp_left fun isScheduled => ?_)
    rcases whole.added other isScheduled with isBefore | isDataOp
    · exact done.only other isBefore otherCompute
    · exact absurd (otherCompute.symm.trans isDataOp) Bool.false_ne_true

theorem Done.scheduleComputeOperation (done : Done prog prefetchOpsDefined before state)
    (admitted : prog.Admitted) (fits : prog.totalCost < 2 ^ 64)
    (same : prog.originalOps = before ++ opIdx :: after)
    (isCompute : prog.isDataOp opIdx = false) (executorKind : ExecutorKind) :
    ∃ now, prog.scheduleComputeOperation prefetchOpsDefined state opIdx executorKind = .ok now ∧
      Done prog prefetchOpsDefined (before ++ [opIdx]) now := by
  obtain ⟨⟨ready, target⟩, scheduled, reached⟩ :=
    done.scheduleDependenciesForCompute admitted fits same isCompute executorKind
  have original : opIdx ∈ prog.originalOps := same ▸ mem_append_right _ mem_cons_self
  obtain ⟨cycleCost, found, sameCost⟩ := Program.operationCycleCost_of_pos
    (admitted.cost_pos opIdx original)
  have unfolded : prog.scheduleComputeOperation prefetchOpsDefined state opIdx executorKind =
      _ := (ok_bind scheduled _).trans (ok_bind (Program.getOperationCycleCost_ok found) _)
  rw [unfolded]
  split
  · obtain ⟨now, prefetched, consistent, grown⟩ :=
      reached.consistent.prefetchDataOps admitted fits (target + cycleCost)
    refine ⟨_, ok_bind prefetched _, ?_⟩
    -- The operation ends when all that is prefetched has ended, or later.
    have total : ready.used + prog.costOf opIdx ≤ prog.totalCost :=
      reached.consistent.used_add_le
        (done.unscheduled admitted same isCompute reached.grown) original
    have below : target.toNat ≤ ready.used := reached.below
    have free := consistent.getNextFreePipelineCycle_le fits .dmaNN
    have used : ready.used ≤ now.used := grown.used_le
    have ended := Words.toNat_max (target + cycleCost) (now.getNextFreePipelineCycle .dmaNN)
    rw [Words.toNat_add (by omega)] at ended
    have begins := UInt64.toNat_sub_of_le
      (max (target + cycleCost) (now.getNextFreePipelineCycle .dmaNN)) cycleCost
      (UInt64.le_iff_toNat_le.mpr (by omega))
    refine reached.finish done admitted fits same isCompute consistent grown found ?_ ?_
      executorKind
    · rw [begins, ended]
      omega
    · rw [begins, ended]
      omega
  · exact ⟨_, rfl, reached.finish done admitted fits same isCompute reached.consistent
      (Grown.refl _ _) found le_rfl reached.below executorKind⟩

theorem Consistent.performCycleScheduling (consistent : Consistent prog prefetchOpsDefined state)
    (empty : state.operationCycles = []) (admitted : prog.Admitted)
    (fits : prog.totalCost < 2 ^ 64) :
    ∃ now, prog.performCycleScheduling prefetchOpsDefined state = .ok now ∧
      Consistent prog prefetchOpsDefined now ∧
      ∀ opIdx ∈ prog.originalOps, opIdx ∈ now.scheduledOps := by
  have each : ∀ entries entry rest, prog.scheduledOps = entries ++ entry :: rest → ∀ now,
      Done prog prefetchOpsDefined
        ((entries.filter ScheduledOp.isOriginalOp).map ScheduledOp.op) now →
      ∃ later, prog.performCycle prefetchOpsDefined now entry = .ok later ∧
        Done prog prefetchOpsDefined
          (((entries ++ [entry]).filter ScheduledOp.isOriginalOp).map ScheduledOp.op) later := by
    intro entries entry rest same now done
    rw [filter_append, map_append, filter_singleton]
    unfold Program.performCycle
    by_cases isOriginalOp : entry.isOriginalOp = true
    · rw [isOriginalOp, Bool.not_true, if_neg Bool.false_ne_true]
      have ops : prog.originalOps = (entries.filter ScheduledOp.isOriginalOp).map ScheduledOp.op
          ++ entry.op :: (rest.filter ScheduledOp.isOriginalOp).map ScheduledOp.op := by
        unfold Program.originalOps
        rw [same, filter_append, map_append, filter_cons_of_pos isOriginalOp, map_cons]
      cases isDataOp : prog.isDataOp entry.op with
      | true => exact ⟨now, rfl, done.skip isDataOp⟩
      | false =>
        have unscheduled : now.isScheduled entry.op = false := by
          rw [← not_eq_true, State.isScheduled_iff]
          exact done.unscheduled admitted ops isDataOp (Grown.refl _ _)
        rw [unscheduled, Bool.and_false, Bool.or_false, if_neg Bool.false_ne_true]
        exact done.scheduleComputeOperation admitted fits ops isDataOp entry.execKind
    · rw [not_eq_true] at isOriginalOp
      rw [isOriginalOp]
      refine ⟨now, rfl, ?_⟩
      rw [cond_false, map_nil, append_nil]
      exact done
  have start : Done prog prefetchOpsDefined [] state := by
    refine ⟨consistent, forall_mem_nil _, fun opIdx mem => ?_⟩
    unfold State.scheduledOps at mem
    rw [empty] at mem
    exact absurd mem not_mem_nil
  obtain ⟨now, res, done⟩ := foldlM_done _ prog.scheduledOps each state start
  refine ⟨now, res, done.consistent, fun opIdx mem => ?_⟩
  cases isDataOp : prog.isDataOp opIdx with
  | false => exact (done.covers opIdx mem isDataOp).1
  | true =>
    obtain ⟨consumer, consumerMember, isCompute, needs⟩ := admitted.needed opIdx mem isDataOp
    exact (done.covers consumer consumerMember isCompute).2 needs

end

/-! ### Sorting -/

/-- An operation does not begin after another one. -/
def NotAfter (op1 op2 : CycleInfo) : Prop := op1.cycleBegin.toNat ≤ op2.cycleBegin.toNat

variable {op1 op2 : CycleInfo} (list : List CycleInfo)

theorem notAfter_of_sortsBefore (sorts : sortsBefore op1 op2 = true) : NotAfter op1 op2 := by
  unfold sortsBefore at sorts
  unfold NotAfter
  by_cases same : op1.cycleBegin = op2.cycleBegin
  · rw [same]
  · rw [if_pos same, decide_eq_true_eq] at sorts
    exact (UInt64.lt_iff_toNat_lt.mp sorts).le

theorem notAfter_of_not_sortsBefore (sorts : ¬ sortsBefore op1 op2 = true) : NotAfter op2 op1 := by
  unfold sortsBefore at sorts
  unfold NotAfter
  by_cases same : op1.cycleBegin = op2.cycleBegin
  · rw [same]
  · rw [if_pos same, decide_eq_true_eq] at sorts
    exact UInt64.le_iff_toNat_le.mp (UInt64.not_lt.mp sorts)

theorem orderedInsert_pairwise {list : List CycleInfo} (op : CycleInfo)
    (sorted : list.Pairwise NotAfter) :
    (list.orderedInsert (fun op1 op2 => sortsBefore op1 op2) op).Pairwise NotAfter := by
  induction list with
  | nil => exact pairwise_singleton _ _
  | cons first rest ih =>
    obtain ⟨firstSorted, restSorted⟩ := pairwise_cons.mp sorted
    rw [orderedInsert_cons]
    split
    · rename_i sorts
      have before := notAfter_of_sortsBefore sorts
      refine pairwise_cons.mpr ⟨fun other mem => ?_, sorted⟩
      rcases mem_cons.mp mem with rfl | inRest
      · exact before
      · exact before.trans (firstSorted other inRest)
    · rename_i sorts
      refine pairwise_cons.mpr ⟨fun other mem => ?_, ih restSorted⟩
      rcases (mem_orderedInsert _).mp mem with rfl | inRest
      · exact notAfter_of_not_sortsBefore sorts
      · exact firstSorted other inRest

theorem sortOps_pairwise : (sortOps list).Pairwise NotAfter := by
  induction list with
  | nil => exact List.Pairwise.nil
  | cons first rest ih => exact orderedInsert_pairwise first ih

theorem sortOps_perm : (sortOps list).Perm list := perm_insertionSort _ list

/-! ### Data operations before the next compute operation -/

section

variable {prog : Program}

theorem le_getNextComputeCycleBegin (bound : Nat) (computeCount : Nat) (cycleBegin : UInt64)
    (computes : List CycleInfo) (start : bound ≤ cycleBegin.toNat)
    (sorted : ∀ info ∈ computes, bound ≤ info.cycleBegin.toNat) :
    bound ≤ (prog.getNextComputeCycleBegin computeCount cycleBegin computes).toNat := by
  induction computes generalizing computeCount cycleBegin with
  | nil =>
    rw [Program.getNextComputeCycleBegin]
    exact start
  | cons temp later ih =>
    obtain ⟨first, others⟩ := forall_mem_cons.mp sorted
    rw [Program.getNextComputeCycleBegin]
    split
    · exact ih _ _ first others
    · exact start

/-- A dependency of a data operation that begins before a cycle is scheduled already, or it is a
data operation that begins earlier. -/
def WaitsFor (prog : Program) (bound : Nat) (datas placed : List CycleInfo) : Prop :=
  ∀ data ∈ datas, data.cycleBegin.toNat < bound → ∀ dep ∈ prog.getOpDeps data.opIdx,
    dep ∈ placed.map CycleInfo.opIdx ∨ ∃ other ∈ datas, other.opIdx = dep ∧
      other.cycleBegin.toNat < data.cycleBegin.toNat

/-- What happens to the data operations before a compute operation that begins at some cycle. -/
structure Placed (prog : Program) (bound : Nat) (datas placed : List CycleInfo)
    (result : List CycleInfo × List CycleInfo) : Prop where
  sublist : result.1.Sublist datas
  perm : (result.2 ++ result.1).Perm (placed ++ datas)
  ordered : Ordered prog.getOpDeps (result.2.map CycleInfo.opIdx)
  late : ∀ data ∈ result.1, bound ≤ data.cycleBegin.toNat

theorem all_any_iff {data : CycleInfo} {placed : List CycleInfo} :
    ((prog.getOpDeps data.opIdx).all fun depIdx =>
      placed.any fun info => info.opIdx = depIdx) = true ↔
      prog.getOpDeps data.opIdx ⊆ placed.map CycleInfo.opIdx := by
  simp only [all_eq_true, any_eq_true, decide_eq_true_eq]
  exact forall₂_congr fun dep _ => mem_map.symm

theorem scheduleDataOps_placed (bound : Nat) (nextComputeCycleBegin : UInt64)
    (next : bound ≤ nextComputeCycleBegin.toNat) (datas placed : List CycleInfo)
    (sorted : datas.Pairwise NotAfter) (waits : WaitsFor prog bound datas placed)
    (ordered : Ordered prog.getOpDeps (placed.map CycleInfo.opIdx)) :
    Placed prog bound datas placed
      (prog.scheduleDataOps nextComputeCycleBegin datas placed) := by
  induction datas generalizing placed with
  | nil =>
    rw [Program.scheduleDataOps]
    exact ⟨List.Sublist.refl _, List.Perm.refl _, ordered,
      forall_mem_nil _⟩
  | cons data later ih =>
    obtain ⟨dataSorted, laterSorted⟩ := pairwise_cons.mp sorted
    rw [Program.scheduleDataOps]
    split
    · rename_i after
      have late := next.trans (UInt64.le_iff_toNat_le.mp after)
      refine ⟨List.Sublist.refl _, List.Perm.refl _, ordered, fun other mem => ?_⟩
      rcases mem_cons.mp mem with rfl | inLater
      · exact late
      · exact late.trans (dataSorted other inLater)
    · split
      · rename_i ready
        have waitsLater : WaitsFor prog bound later (placed ++ [data]) := by
          intro other mem early dep isDep
          rw [map_append, mem_append]
          rcases waits other (mem_cons_of_mem _ mem) early dep isDep with
            scheduled | ⟨prior, priorMember, same, earlier⟩
          · exact .inl (.inl scheduled)
          · rcases mem_cons.mp priorMember with rfl | inLater
            · exact .inl (.inr (mem_singleton.mpr same.symm))
            · exact .inr ⟨prior, inLater, same, earlier⟩
        have orderedLater : Ordered prog.getOpDeps ((placed ++ [data]).map CycleInfo.opIdx) := by
          rw [map_append]
          exact ordered.concat (all_any_iff.mp ready)
        obtain ⟨sublist, perm, kept, late⟩ :=
          ih (placed ++ [data]) laterSorted waitsLater orderedLater
        refine ⟨sublist.cons _, perm.trans ?_, kept, late⟩
        rw [append_assoc]
        exact List.Perm.refl _
      · rename_i unready
        -- A data operation that is not ready cannot begin before the bound.
        have dataLate : bound ≤ data.cycleBegin.toNat := by
          by_contra early
          refine unready (all_any_iff.mpr fun dep isDep => ?_)
          rcases waits data mem_cons_self (not_le.mp early) dep isDep with
            scheduled | ⟨prior, priorMember, _, earlier⟩
          · exact scheduled
          · rcases mem_cons.mp priorMember with rfl | inLater
            · exact absurd earlier (lt_irrefl _)
            · exact absurd earlier (dataSorted prior inLater).not_gt
        have waitsLater : WaitsFor prog bound later placed := by
          intro other mem early dep isDep
          rcases waits other (mem_cons_of_mem _ mem) early dep isDep with
            scheduled | ⟨prior, priorMember, same, earlier⟩
          · exact .inl scheduled
          · rcases mem_cons.mp priorMember with rfl | inLater
            · exact absurd (earlier.trans early) dataLate.not_gt
            · exact .inr ⟨prior, inLater, same, earlier⟩
        obtain ⟨sublist, perm, kept, late⟩ := ih placed laterSorted waitsLater ordered
        refine ⟨sublist.cons_cons _, ?_, kept, forall_mem_cons.mpr ⟨dataLate, late⟩⟩
        exact perm_middle.trans ((perm.cons data).trans perm_middle.symm)

/-! ### The interleaving -/

/-- What the cycles of the second round give. -/
structure Timed (prog : Program) (infos : List CycleInfo) : Prop where
  nodup : (infos.map CycleInfo.opIdx).Nodup
  waits : ∀ info ∈ infos, ∀ dep ∈ prog.getOpDeps info.opIdx, ∃ other ∈ infos,
    other.opIdx = dep ∧ other.cycleBegin.toNat < info.cycleBegin.toNat
  needed : ∀ info ∈ infos, prog.inDataOpIdx info.opIdx = true → ∃ consumer ∈ infos,
    prog.inDataOpIdx consumer.opIdx = false ∧ info.opIdx ∈ prog.getOpDeps consumer.opIdx

/-- What is left of the two lists, and what is scheduled. -/
structure Interleaved (prog : Program) (infos datas computes placed : List CycleInfo) :
    Prop where
  perm : (placed ++ datas ++ computes).Perm infos
  sortedData : datas.Pairwise NotAfter
  sortedComputes : computes.Pairwise NotAfter
  dataOps : ∀ data ∈ datas, prog.inDataOpIdx data.opIdx = true
  ordered : Ordered prog.getOpDeps (placed.map CycleInfo.opIdx)

variable {infos datas computes placed : List CycleInfo}

theorem Interleaved.waits (interleaved : Interleaved prog infos datas computes placed)
    (timed : Timed prog infos) {compute info : CycleInfo} (mem : info ∈ infos)
    (first : ∀ other ∈ computes, compute.cycleBegin.toNat ≤ other.cycleBegin.toNat)
    (early : info.cycleBegin.toNat ≤ compute.cycleBegin.toNat) :
    ∀ dep ∈ prog.getOpDeps info.opIdx, dep ∈ placed.map CycleInfo.opIdx ∨
      ∃ other ∈ datas, other.opIdx = dep ∧
        other.cycleBegin.toNat < info.cycleBegin.toNat := by
  intro dep isDep
  obtain ⟨other, otherMember, same, earlier⟩ := timed.waits info mem dep isDep
  rcases mem_append.mp (interleaved.perm.mem_iff.mpr otherMember) with found | inComputes
  · rcases mem_append.mp found with isPlaced | isData
    · exact .inl (same ▸ mem_map_of_mem isPlaced)
    · exact .inr ⟨other, isData, same, earlier⟩
  · have late := first other inComputes
    omega

/-- With no compute operation left there is no data operation left. -/
theorem Interleaved.datas_eq_nil (interleaved : Interleaved prog infos datas [] placed)
    (timed : Timed prog infos) : datas = [] := by
  refine eq_nil_iff_forall_not_mem.mpr fun data mem => ?_
  have perm : (placed ++ datas).Perm infos := by
    have whole := interleaved.perm
    rwa [append_nil] at whole
  obtain ⟨consumer, consumerMember, isCompute, needs⟩ := timed.needed data
    (perm.mem_iff.mp (mem_append_right _ mem)) (interleaved.dataOps data mem)
  have isPlaced : consumer ∈ placed := by
    rcases mem_append.mp (perm.mem_iff.mpr consumerMember) with found | isData
    · exact found
    · exact absurd (isCompute.symm.trans (interleaved.dataOps consumer isData))
        Bool.false_ne_true
  have again := interleaved.ordered.subset (mem_map_of_mem isPlaced) needs
  have nodup := (perm.map CycleInfo.opIdx).nodup_iff.mpr timed.nodup
  rw [map_append] at nodup
  exact (nodup_append.mp nodup).2.2 _ again _ (mem_map_of_mem mem) rfl

theorem Interleaved.result (timed : Timed prog infos) (computes datas placed : List CycleInfo)
    (interleaved : Interleaved prog infos datas computes placed) :
    ∃ order, prog.interleave computes.length datas computes placed = .ok order ∧
      order.Perm infos ∧ Ordered prog.getOpDeps (order.map CycleInfo.opIdx) := by
  induction computes generalizing datas placed with
  | nil =>
    have nothing := interleaved.datas_eq_nil timed
    subst nothing
    refine ⟨placed, rfl, ?_, interleaved.ordered⟩
    have perm := interleaved.perm
    rwa [append_nil, append_nil] at perm
  | cons compute computes ih =>
    obtain ⟨computeSorted, restSorted⟩ := pairwise_cons.mp interleaved.sortedComputes
    have first : ∀ other ∈ compute :: computes,
        compute.cycleBegin.toNat ≤ other.cycleBegin.toNat :=
      forall_mem_cons.mpr ⟨le_refl _, computeSorted⟩
    have computeMember : compute ∈ infos :=
      interleaved.perm.mem_iff.mp (mem_append_right _ mem_cons_self)
    -- After the data operations before it, the compute operation is ready.
    have next : ∀ left now, (now ++ left).Perm (placed ++ datas) → left.Sublist datas →
        Ordered prog.getOpDeps (now.map CycleInfo.opIdx) →
        (∀ data ∈ left, compute.cycleBegin.toNat ≤ data.cycleBegin.toNat) →
        Interleaved prog infos left computes (now ++ [compute]) := by
      intro left now perm sublist ordered late
      have whole : (now ++ left ++ compute :: computes).Perm infos :=
        (perm.append_right _).trans interleaved.perm
      have rest : Interleaved prog infos left (compute :: computes) now :=
        ⟨whole, interleaved.sortedData.sublist sublist, interleaved.sortedComputes,
          fun data mem => interleaved.dataOps data (sublist.subset mem), ordered⟩
      refine ⟨?_, rest.sortedData, restSorted, rest.dataOps, ?_⟩
      · refine List.Perm.trans ?_ whole
        rw [append_assoc, append_assoc, append_assoc, singleton_append]
        exact perm_middle.symm.append_left now
      · rw [map_append]
        refine ordered.concat fun dep isDep => ?_
        rcases rest.waits timed computeMember first le_rfl dep isDep with
          scheduled | ⟨data, mem, _, earlier⟩
        · exact scheduled
        · exact absurd earlier (late data mem).not_gt
    cases datas with
    | nil =>
      exact ih [] (placed ++ [compute]) (next [] placed .rfl
        (List.Sublist.refl _) interleaved.ordered fun _ mem => absurd mem not_mem_nil)
    | cons data datas =>
      have bound : compute.cycleBegin.toNat ≤ maxCycle.toNat :=
        Nat.le_of_lt_succ compute.cycleBegin.toNat_lt
      have placing := scheduleDataOps_placed compute.cycleBegin.toNat
        (prog.getNextComputeCycleBegin 0 maxCycle (compute :: computes))
        (le_getNextComputeCycleBegin _ 0 maxCycle _ bound first) (data :: datas) placed
        interleaved.sortedData
        (fun other mem early => interleaved.waits timed (interleaved.perm.mem_iff.mp
          (mem_append_left _ (mem_append_right _ mem))) first early.le)
        interleaved.ordered
      exact ih _ _
        (next _ _ placing.perm placing.sublist placing.ordered placing.late)

theorem getNewOrder_ok {state : State} (timed : Timed prog state.operationCycles) :
    ∃ order, prog.getNewOrder state = .ok order ∧ order.Perm state.operationCycles ∧
      Ordered prog.getOpDeps (order.map CycleInfo.opIdx) := by
  refine Interleaved.result timed _ _ [] ⟨?_, sortOps_pairwise _, sortOps_pairwise _, ?_,
    DependencyOrder.ordered_nil⟩
  · rw [nil_append]
    exact ((sortOps_perm _).append (sortOps_perm _)).trans
      (filter_append_perm _ state.operationCycles)
  · intro data mem
    exact (List.mem_filter.mp ((sortOps_perm _).mem_iff.mp mem)).2

end

open Option

section

variable {prog : Program}

/-! ### The order of the transfers -/

theorem mergeFIFOs_ok (fuel : Nat) (dmas prefetches : List CycleInfo) (dmaFIFORev : UInt64)
    (enough : dmas.length + prefetches.length ≤ fuel)
    (ends : ∀ dma ∈ dmas, 0 < dma.getCycleEnd.toNat) :
    ∃ merged, prog.mergeFIFOs fuel dmas prefetches dmaFIFORev = .ok merged ∧
      ∀ opIdx ∈ merged.map CycleInfo.opIdx, opIdx ∈ prefetches.map CycleInfo.opIdx ∨
        opIdx ∈ dmas.map CycleInfo.opIdx ∧ prog.inDataOpIdx opIdx = true := by
  induction fuel generalizing dmas prefetches dmaFIFORev with
  | zero =>
    obtain ⟨noDmas, noPrefetches⟩ := Nat.add_eq_zero_iff.mp (Nat.le_zero.mp enough)
    rw [length_eq_zero_iff] at noDmas noPrefetches
    subst noDmas noPrefetches
    exact ⟨[], rfl, forall_mem_nil _⟩
  | succ fuel ih =>
    cases dmas with
    | nil =>
      cases prefetches with
      | nil => exact ⟨[], rfl, forall_mem_nil _⟩
      | cons prefetch later =>
        rw [length_cons] at enough
        obtain ⟨merged, res, found⟩ := ih [] later
          (fitBefore dmaFIFORev prefetch).cycleBegin (by omega) ends
        refine ⟨fitBefore dmaFIFORev prefetch :: merged, ok_bind res _, ?_⟩
        rw [map_cons, map_cons, forall_mem_cons]
        exact ⟨.inl mem_cons_self, fun opIdx mem => (found opIdx mem).imp_left (mem_cons_of_mem _)⟩
    | cons dma rest =>
      obtain ⟨dmaEnds, restEnds⟩ := forall_mem_cons.mp ends
      rw [length_cons] at enough
      rw [Program.mergeFIFOs.eq_def]
      dsimp only
      by_cases isDataOp : prog.inDataOpIdx dma.opIdx = true
      · rw [isDataOp, Bool.not_true, if_neg Bool.false_ne_true]
        -- The transfer of the compute FIFO is added.
        have addDma : ∃ merged, (do
              let added := fitBefore dmaFIFORev dma
              let others ← prog.mergeFIFOs fuel rest prefetches added.cycleBegin
              return added :: others) = Except.ok merged ∧
            ∀ opIdx ∈ merged.map CycleInfo.opIdx, opIdx ∈ prefetches.map CycleInfo.opIdx ∨
              opIdx ∈ (dma :: rest).map CycleInfo.opIdx ∧ prog.inDataOpIdx opIdx = true := by
          obtain ⟨merged, res, found⟩ := ih rest prefetches
            (fitBefore dmaFIFORev dma).cycleBegin (by omega) restEnds
          refine ⟨fitBefore dmaFIFORev dma :: merged, ok_bind res _, ?_⟩
          rw [map_cons, map_cons, forall_mem_cons]
          exact ⟨.inr ⟨mem_cons_self, isDataOp⟩, fun opIdx mem =>
            (found opIdx mem).imp_right (And.imp_left (mem_cons_of_mem _))⟩
        cases prefetches with
        | nil =>
          have notPast : ¬ (0 : UInt64) ≥ dma.getCycleEnd := fun past =>
            absurd (UInt64.le_iff_toNat_le.mp past) dmaEnds.not_ge
          rw [if_neg notPast]
          exact addDma
        | cons prefetch later =>
          dsimp only
          split
          · rw [length_cons] at enough
            obtain ⟨merged, res, found⟩ := ih (dma :: rest) later
              (fitBefore dmaFIFORev prefetch).cycleBegin
              (by rw [length_cons]; omega) ends
            refine ⟨fitBefore dmaFIFORev prefetch :: merged, ok_bind res _, ?_⟩
            rw [map_cons, map_cons, forall_mem_cons]
            exact ⟨.inl mem_cons_self, fun opIdx mem =>
              (found opIdx mem).imp_left (mem_cons_of_mem _)⟩
          · exact addDma
      · rw [Bool.not_eq_true] at isDataOp
        rw [isDataOp, Bool.not_false, if_pos rfl]
        obtain ⟨merged, res, found⟩ := ih rest prefetches dmaFIFORev (by omega) restEnds
        exact ⟨merged, res, fun opIdx mem =>
          (found opIdx mem).imp_right (And.imp_left (mem_cons_of_mem _))⟩

theorem Program.isDataOp_of_inDataOpIdx {opIdx : Nat}
    (found : prog.inDataOpIdx opIdx = true) : prog.isDataOp opIdx = true := by
  obtain ⟨entry, -, matching⟩ := any_eq_true.mp found
  exact (Bool.and_eq_true_iff.mp matching).2

theorem Program.inDataOpIdx_eq {opIdx : Nat} (original : opIdx ∈ prog.originalOps) :
    prog.inDataOpIdx opIdx = prog.isDataOp opIdx := by
  cases isDataOp : prog.isDataOp opIdx with
  | false =>
    rw [← Bool.not_eq_true]
    exact fun found => Bool.false_ne_true (isDataOp.symm.trans (isDataOp_of_inDataOpIdx found))
  | true =>
    obtain ⟨entry, mem, same⟩ := mem_map.mp original
    refine any_eq_true.mpr ⟨entry, (mem_filter.mp mem).1, ?_⟩
    rw [isDataOp, Bool.and_true]
    exact decide_eq_true same

theorem Consistent.createDataOpPipeline {state : State} (consistent : Consistent prog false state)
    (admitted : prog.Admitted) (fits : prog.totalCost < 2 ^ 64) :
    ∃ ordered, prog.createDataOpPipeline state = .ok ordered ∧
      Consistent prog true ordered ∧ ordered.operationCycles = [] := by
  have ends : ∀ dma ∈ (state.executorPipelineCycles .dmaNN).reverse,
      0 < dma.getCycleEnd.toNat := by
    intro dma mem
    have queued := mem_reverse.mp mem
    obtain ⟨scheduled, cost, -⟩ := consistent.queued .dmaNN dma queued
    have pos := admitted.cost_pos dma.opIdx (consistent.original dma.opIdx scheduled)
    rw [consistent.queued_lt fits queued]
    omega
  obtain ⟨merged, res, found⟩ := mergeFIFOs_ok
    ((state.executorPipelineCycles .dmaNN).length + state.prefetchPipeline.length)
    (state.executorPipelineCycles .dmaNN).reverse state.prefetchPipeline.reverse maxCycle
    (by rw [length_reverse, length_reverse]) ends
  refine ⟨_, ok_bind res _, ?_, rfl⟩
  constructor
  case nodup => exact nodup_nil
  case prefetched =>
    intro info mem
    have inMerged := mem_map_of_mem (f := CycleInfo.opIdx) (mem_reverse.mp mem)
    rcases found info.opIdx inMerged with isPrefetched | ⟨isQueued, isDataOp⟩
    · obtain ⟨other, otherMember, same⟩ := mem_map.mp isPrefetched
      rw [← same]
      exact consistent.prefetched other (mem_reverse.mp otherMember)
    · obtain ⟨other, otherMember, same⟩ := mem_map.mp isQueued
      refine ⟨Program.isDataOp_of_inDataOpIdx isDataOp, same ▸ consistent.original _ ?_⟩
      exact (consistent.queued .dmaNN other (mem_reverse.mp otherMember)).1
  case queued => exact fun _ _ mem => absurd mem not_mem_nil
  case waited => exact fun _ _ mem => absurd mem not_mem_nil
  all_goals exact forall_mem_nil _

/-! ### The second round -/

section

variable {state : State} (consistent : Consistent prog true state) (admitted : prog.Admitted)
include consistent admitted

theorem Consistent.timed (fits : prog.totalCost < 2 ^ 64)
    (all : ∀ opIdx ∈ prog.originalOps, opIdx ∈ state.scheduledOps) :
    Timed prog state.operationCycles where
  nodup := consistent.nodup
  waits info mem dep isDep := by
    obtain ⟨other, otherMember, same, ended⟩ := (consistent.waited rfl info mem).2 dep isDep
    refine ⟨other, otherMember, same, ?_⟩
    -- It ends before and takes at least a cycle.
    have pos := admitted.cost_pos other.opIdx
      (consistent.original other.opIdx (mem_map_of_mem otherMember))
    have cost := Program.costOf_eq (consistent.cost other otherMember)
    have below := (consistent.waited rfl other otherMember).1
    have total := consistent.used_le
    have ends : other.getCycleEnd.toNat = other.cycleBegin.toNat + other.cycleCost.toNat :=
      Words.toNat_add (by omega)
    omega
  needed info mem isData := by
    have original := consistent.original info.opIdx (mem_map_of_mem mem)
    obtain ⟨consumer, consumerOriginal, isCompute, needs⟩ :=
      admitted.needed info.opIdx original (Program.isDataOp_of_inDataOpIdx isData)
    obtain ⟨found, foundMember, same⟩ := mem_map.mp (all consumer consumerOriginal)
    refine ⟨found, foundMember, ?_, same ▸ needs⟩
    rw [same, Program.inDataOpIdx_eq consumerOriginal]
    exact isCompute

theorem Consistent.scheduledOps_perm
    (all : ∀ opIdx ∈ prog.originalOps, opIdx ∈ state.scheduledOps) :
    state.scheduledOps.Perm prog.originalOps :=
  (perm_ext_iff_of_nodup consistent.nodup admitted.nodup).mpr fun opIdx =>
    ⟨consistent.original opIdx, all opIdx⟩

end

/-! ### The IR -/

/-- The operations moved so far are next to each other, the last one at the end. -/
def Moved (prog : Program) (done : List CycleInfo) (moved : Option Nat × List Nat) : Prop :=
  moved.1 = (done.map CycleInfo.opIdx).getLast? ∧
    moved.2.Perm (List.range prog.opCount) ∧
      ∃ before after, moved.2 = before ++ (done.map CycleInfo.opIdx ++ after)

theorem moveBefore_eq {ir : List Nat} {existing op : Nat} (nodup : ir.Nodup) (mem : op ∈ ir)
    (existingMember : existing ∈ ir) :
    (moveBefore ir existing op).Perm ir ∧
      ∃ before after, moveBefore ir existing op = before ++ ([op] ++ after) := by
  unfold moveBefore
  split
  · obtain ⟨before, after, same⟩ := append_of_mem mem
    exact ⟨List.Perm.refl _, before, after, same⟩
  · rename_i different
    have remains : existing ∈ ir.erase op :=
      (mem_erase_of_ne (Ne.symm different)).mpr existingMember
    obtain ⟨before, after, same⟩ := append_of_mem remains
    have distinct := nodup.erase op
    rw [same, nodup_middle, nodup_cons, mem_append, not_or] at distinct
    have moves := Moves.flatMap_replace (fun other => [op, other]) distinct.1.1 distinct.1.2
    rw [same, moves]
    refine ⟨?_, before, existing :: after, rfl⟩
    refine perm_middle.trans (.trans ?_ (perm_cons_erase mem).symm)
    rw [same]
    exact List.Perm.refl _

theorem moveAfter_eq {before done after : List Nat} {prevAsyncOp op : Nat}
    (nodup : (before ++ (done ++ [prevAsyncOp] ++ after)).Nodup)
    (fresh : op ∉ done ++ [prevAsyncOp]) (mem : op ∈ before ++ after) :
    ∃ restBefore restAfter,
      moveAfter (before ++ (done ++ [prevAsyncOp] ++ after)) prevAsyncOp op =
        restBefore ++ (done ++ [prevAsyncOp] ++ [op] ++ restAfter) ∧
      (op :: (restBefore ++ restAfter)).Perm (before ++ after) := by
  have different : op ≠ prevAsyncOp := fun same =>
    fresh (mem_append_right _ (mem_singleton.mpr same))
  obtain ⟨restBefore, restAfter, erased, left⟩ := Moves.erase_around fresh mem
  refine ⟨restBefore, restAfter, ?_, left⟩
  have distinct := nodup.erase op
  rw [erased] at distinct
  have shape : restBefore ++ (done ++ [prevAsyncOp] ++ restAfter) =
      (restBefore ++ done) ++ prevAsyncOp :: restAfter := by simp
  rw [shape, nodup_middle, nodup_cons, mem_append, not_or] at distinct
  unfold moveAfter
  rw [if_neg different, erased, shape,
    Moves.flatMap_replace (fun other => [other, op]) distinct.1.1 distinct.1.2]
  simp

theorem Moved.step {done : List CycleInfo} {moved : Option Nat × List Nat}
    (sofar : Moved prog done moved) {opCycles : CycleInfo}
    (known : opCycles.opIdx < prog.opCount) (fresh : opCycles.opIdx ∉ done.map CycleInfo.opIdx) :
    ∃ after, prog.reorderStep moved opCycles = .ok after ∧
      Moved prog (done ++ [opCycles]) after := by
  obtain ⟨prev, ir⟩ := moved
  obtain ⟨last, perm, before, after, same⟩ := sofar
  dsimp only at last perm same
  have nodup : ir.Nodup := perm.nodup_iff.mpr nodup_range
  have mem : opCycles.opIdx ∈ ir := perm.mem_iff.mpr (mem_range.mpr known)
  unfold Program.reorderStep Moved
  rw [if_pos known, map_append, map_singleton, getLast?_append, getLast?_singleton, some_or]
  rcases eq_nil_or_concat (done.map CycleInfo.opIdx) with empty | ⟨rest, prevAsyncOp, moved⟩
  · rw [empty, getLast?_nil] at last
    rw [last, empty]
    obtain ⟨kept, front, back, shape⟩ := moveBefore_eq nodup mem
      (perm.mem_iff.mpr (mem_range.mpr (Nat.zero_lt_of_lt known)))
    exact ⟨_, rfl, rfl, kept.trans perm, front, back, shape⟩
  · rw [concat_eq_append] at moved
    rw [moved, getLast?_append, getLast?_singleton, some_or] at last
    rw [moved] at same fresh ⊢
    rw [last]
    have around : opCycles.opIdx ∈ before ++ after := by
      rw [same, mem_append, mem_append] at mem
      rw [mem_append]
      tauto
    rw [same] at nodup perm ⊢
    obtain ⟨front, back, shape, left⟩ := moveAfter_eq nodup fresh around
    refine ⟨_, rfl, rfl, ?_, front, back, shape⟩
    rw [shape]
    refine List.Perm.trans ?_ perm
    have swapped : ∀ first second kept : List Nat, (first ++ (kept ++ second)).Perm
        (kept ++ (first ++ second)) := by
      intro first second kept
      rw [← append_assoc, ← append_assoc]
      exact perm_append_comm.append_right second
    refine (swapped _ _ _).trans (.trans ?_ (swapped _ _ _).symm)
    rw [append_assoc]
    exact left.append_left _

theorem reorderToPrefetch_ok {order : List CycleInfo} (nodup : (order.map CycleInfo.opIdx).Nodup)
    (known : ∀ opIdx ∈ order.map CycleInfo.opIdx, opIdx < prog.opCount) :
    ∃ ir, prog.reorderToPrefetch order = .ok ir ∧ ir.Perm (List.range prog.opCount) ∧
      (order.map CycleInfo.opIdx).Sublist ir := by
  have each : ∀ done opCycles rest, order = done ++ opCycles :: rest → ∀ moved,
      Moved prog done moved → ∃ after, prog.reorderStep moved opCycles = .ok after ∧
        Moved prog (done ++ [opCycles]) after := by
    intro done opCycles rest same moved sofar
    refine sofar.step (known _ (mem_map_of_mem ?_)) fun again => ?_
    · rw [same]
      exact mem_append_right _ mem_cons_self
    · rw [same, map_append] at nodup
      exact (nodup_append.mp nodup).2.2 _ again _ mem_cons_self rfl
  obtain ⟨⟨prev, ir⟩, res, -, perm, before, after, same⟩ := foldlM_done _ order each
    (none, range prog.opCount) ⟨rfl, List.Perm.refl _, [], _, rfl⟩
  refine ⟨ir, ok_bind res _, perm, ?_⟩
  dsimp only at same
  rw [same]
  exact (sublist_append_left _ _).trans (sublist_append_right _ _)

end

/-! ### The whole reordering -/

/-- The reordering ends, with all original operations once and each after those it depends on, when
the costs of the operations together are a number of cycles that can be counted. -/
theorem Program.enableDataOpPrefetching_ordered (prog : Program) (admitted : prog.Admitted)
    (fits : prog.totalCost < 2 ^ 64) :
    ∃ order ir, prog.enableDataOpPrefetching = .ok (order, ir) ∧
      (order.map CycleInfo.opIdx).Perm prog.originalOps ∧
      Ordered prog.getOpDeps (order.map CycleInfo.opIdx) ∧
      ir.Perm (List.range prog.opCount) ∧ (order.map CycleInfo.opIdx).Sublist ir := by
  have start : Consistent prog false ⟨[], [], [], fun _ => []⟩ := by
    constructor
    case nodup => exact nodup_nil
    case queued => exact fun _ _ mem => absurd mem not_mem_nil
    case waited => exact fun _ _ mem => absurd mem not_mem_nil
    all_goals exact forall_mem_nil _
  obtain ⟨first, firstRound, firstConsistent, -⟩ := start.performCycleScheduling rfl admitted fits
  obtain ⟨ordered, pipeline, orderedConsistent, empty⟩ :=
    firstConsistent.createDataOpPipeline admitted fits
  obtain ⟨second, secondRound, consistent, all⟩ :=
    orderedConsistent.performCycleScheduling empty admitted fits
  obtain ⟨order, newOrder, perm, depsBefore⟩ := getNewOrder_ok (consistent.timed admitted fits all)
  have same : (order.map CycleInfo.opIdx).Perm prog.originalOps :=
    (perm.map CycleInfo.opIdx).trans (consistent.scheduledOps_perm admitted all)
  have known : ∀ opIdx ∈ order.map CycleInfo.opIdx, opIdx < prog.opCount := by
    intro opIdx mem
    obtain ⟨entry, found, rfl⟩ := mem_map.mp (same.mem_iff.mp mem)
    exact prog.op_lt entry (mem_filter.mp found).1
  obtain ⟨ir, reordered, irPerm, sublist⟩ :=
    reorderToPrefetch_ok (same.nodup_iff.mpr admitted.nodup) known
  refine ⟨order, ir, ?_, same, depsBefore, irPerm, sublist⟩
  refine (ok_bind firstRound _).trans ((ok_bind pipeline _).trans
    ((ok_bind secondRound _).trans ((ok_bind newOrder _).trans ?_)))
  exact ok_bind reordered _

/-- Two data operations and the operations that need them. -/
def twoLayers : Program where
  opCount := 4
  getOpDeps
    | 1 => [0]
    | 3 => [1, 2]
    | _ => []
  isDataOp opIdx := opIdx = 0 || opIdx = 2
  scheduledOps := [ ⟨0, .originalOp, 0, 5, .dmaNN⟩, ⟨1, .originalOp, 5, 25, .dpu⟩,
    ⟨2, .originalOp, 25, 35, .dmaNN⟩, ⟨3, .originalOp, 35, 40, .dpu⟩]
  op_lt := by decide

theorem twoLayers_ordered :
    ∃ order ir, twoLayers.enableDataOpPrefetching = .ok (order, ir) ∧
      (order.map CycleInfo.opIdx).Perm twoLayers.originalOps ∧
      Ordered twoLayers.getOpDeps (order.map CycleInfo.opIdx) ∧
      ir.Perm (List.range twoLayers.opCount) ∧ (order.map CycleInfo.opIdx).Sublist ir := by
  refine twoLayers.enableDataOpPrefetching_ordered
    ⟨by decide, by decide, by decide +kernel, by decide, ?_⟩ (by decide +kernel)
  intro before opIdx after _ _ earlier dep later _ isDataOp prior isPrior _
  have none : ∀ dep, twoLayers.isDataOp dep = true → twoLayers.getOpDeps dep = [] := by
    intro dep isDataOp
    rcases (Bool.or_eq_true _ _).mp isDataOp with first | second
    · rw [of_decide_eq_true first]
      rfl
    · rw [of_decide_eq_true second]
      rfl
  rw [none dep isDataOp] at isPrior
  exact absurd isPrior not_mem_nil

/-- Two transfers on different ports, so long that they do not fit behind each other, and an
operation that needs the second one. -/
def twoPorts : Program where
  opCount := 3
  getOpDeps
    | 2 => [1]
    | _ => []
  isDataOp _ := false
  scheduledOps := [ ⟨0, .originalOp, 0, 2 ^ 63, .dmaNN⟩, ⟨1, .originalOp, 0, 2 ^ 63, .dmaNN⟩,
    ⟨2, .originalOp, 2 ^ 63, 2 ^ 63 + 1, .dpu⟩]
  op_lt := by decide

/-- The second transfer ends when the cycles have wrapped around, and what needs it is put before
it. -/
theorem twoPorts_not_ordered : twoPorts.Admitted ∧
    ¬ ∃ order ir, twoPorts.enableDataOpPrefetching = .ok (order, ir) ∧
      Ordered twoPorts.getOpDeps (order.map CycleInfo.opIdx) := by
  refine ⟨⟨by decide, by decide, by decide +kernel, by decide, ?_⟩, ?_⟩
  · intro before opIdx after _ _ earlier dep later _ isDataOp
    exact absurd isDataOp Bool.false_ne_true
  · rintro ⟨order, ir, res, ordered⟩
    have computed : (twoPorts.enableDataOpPrefetching.toOption.map fun res =>
        res.1.map CycleInfo.opIdx) = some [0, 2, 1] := by decide +kernel
    rw [res] at computed
    have same : order.map CycleInfo.opIdx = [0, 2, 1] := some.inj computed
    rw [same] at ordered
    exact absurd (ordered [0] 2 [1] rfl) (by decide)

end NpuPlugin.PrefetchDataOps
