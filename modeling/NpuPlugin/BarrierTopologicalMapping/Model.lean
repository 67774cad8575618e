/-
This file models the pass that finds which barriers depend on which others and brings them in a
topological order. The tasks are taken out of the graph one after the other, edges that follow from
others are removed, and the barriers are moved and renumbered.
-/

import Mathlib.Data.Finset.Sort
import NpuPlugin.Library.Loop
import NpuPlugin.Library.Insertion
import NpuPlugin.Library.Reachability
import NpuPlugin.Library.TopologicalOrder

namespace NpuPlugin.BarrierTopologicalMapping

open Function List Nat Reachability Relation

structure Task where
  waitBarriers : List Nat
  updateBarriers : List Nat
deriving DecidableEq, Repr

/-- A barrier by its number, or a task by its list and its place in the list. -/
inductive Op
  | barrier (position : Nat)
  | task (list place : Nat)
deriving DecidableEq, Repr

/-- What is thrown. `unfinished` stands for a sort that does not end. -/
inductive MappingFailure
  | barrierCount
  | wlmRollback
  | notInDependencies (op : Op)
  | lastNotFinal
  | barrierMissed
  | notOnlyBarriers
  | unfinished
deriving DecidableEq, Repr

/-- The barriers, by whether they are a final barrier, and the lists of tasks. The barriers are
numbered in the order of the IR. -/
structure Program where
  isFinalBarrier : List Bool
  barrierCount : Nat
  barrierThreshold : Nat
  lists : List (List Task)
  barriers_lt : ∀ list ∈ lists, ∀ task ∈ list, ∀ barrier ∈ task.waitBarriers ++ task.updateBarriers,
    barrier < isFinalBarrier.length

/-- The sets of operations that each operation depends on and that depend on it. -/
structure OpMaps where
  opDependencies : Op → Finset Op
  opDependents : Op → Finset Op
  /-- The keys of `opDependencies`. -/
  keys : List Op

/-- The set bits of each bit vector. -/
abbrev Rows := Nat → Finset Nat

namespace Program

variable (prog : Program)

def size : Nat := prog.isFinalBarrier.length

def taskAt (list place : Nat) : Option Task := (prog.lists[list]?).bind (·[place]?)

def tasks : List Op :=
  (List.range prog.lists.length).flatMap fun list =>
    (List.range (prog.lists.getD list []).length).map (Op.task list)

def ops : List Op := (List.range prog.size).map Op.barrier ++ prog.tasks

def waitBarriers : Op → List Nat
  | .barrier _ => []
  | .task list place => ((prog.taskAt list place).map (·.waitBarriers)).getD []

def updateBarriers : Op → List Nat
  | .barrier _ => []
  | .task list place => ((prog.taskAt list place).map (·.updateBarriers)).getD []

def getPreviousTask : Op → Finset Op
  | .task list (place + 1) => {.task list place}
  | _ => ∅

def getNextTask : Op → Finset Op
  | .task list place =>
    if (prog.taskAt list (place + 1)).isSome then {.task list (place + 1)} else ∅
  | _ => ∅

def getBarrierProducers (barrier : Nat) : Finset Op :=
  (prog.tasks.filter fun op => barrier ∈ prog.updateBarriers op).toFinset

def getBarrierConsumers (barrier : Nat) : Finset Op :=
  (prog.tasks.filter fun op => barrier ∈ prog.waitBarriers op).toFinset

def setIndicesOfWaitBarriersForOps (ops : Finset Op) (waitBarrierIndicies : Finset Nat) :
    Finset Nat :=
  waitBarrierIndicies ∪ ops.biUnion fun op => (prog.waitBarriers op).toFinset

/-- `buildOpDepsAdjacentLists`, for the barriers first, which the pass itself does, and then for the
tasks of all lists. -/
def buildOpDepsAdjacentLists : OpMaps where
  opDependencies
    | .barrier position => prog.getBarrierProducers position
    | .task list place =>
      ((prog.waitBarriers (.task list place)).map Op.barrier).toFinset ∪
        getPreviousTask (.task list place)
  opDependents
    | .barrier position => prog.getBarrierConsumers position
    | .task list place =>
      ((prog.updateBarriers (.task list place)).map Op.barrier).toFinset ∪
        prog.getNextTask (.task list place)
  keys := prog.ops

def barrierDependenciesInIndexRepresentation : Rows := fun barrier =>
  if barrier < prog.size then
    prog.setIndicesOfWaitBarriersForOps (prog.getBarrierProducers barrier) ∅
  else ∅

end Program

def closeAscending (graph : Rows) (size : Nat) : Rows :=
  (List.range size).foldl (fun closure idx =>
    Function.update closure idx (closure idx ∪ (graph idx).biUnion closure)) graph

/-- A dependency between barriers that the closure has. -/
def implied (transitiveClosure : Rows) : Op → Op → Bool
  | .barrier dependency, .barrier dependent => dependency ∈ transitiveClosure dependent
  | _, _ => false

/-- An operation is replaced by edges from its dependencies to its dependents. The order in which
the sets are walked does not matter: each turn is about the sets of another operation. -/
def replaceByEdges (transitiveClosure : Rows) (maps : OpMaps) (op : Op) : OpMaps :=
  let dependents := maps.opDependents op
  let dependencies := maps.opDependencies op
  { opDependencies := fun other =>
      if other ∈ dependents then
        (maps.opDependencies other ∪
          dependencies.filter fun dependency => !implied transitiveClosure dependency
            other).erase op
      else maps.opDependencies other
    opDependents := fun other =>
      if other ∈ dependencies then (maps.opDependents other ∪ dependents).erase op
      else maps.opDependents other
    keys := maps.keys.erase op }

def removeNonBarrierTask (transitiveClosure : Rows) (maps : OpMaps) (op : Op) :
    Except MappingFailure OpMaps :=
  match op with
  | .barrier _ => .ok maps
  | .task _ _ =>
    if op ∈ maps.keys then .ok (replaceByEdges transitiveClosure maps op)
    else .error (.notInDependencies op)

/-- The operations are walked in the order of a hash map. -/
def removeNonBarrierTasksFromGraphWithTransitiveClosure (hashOrder : List Op) (maps : OpMaps)
    (transitiveClosure : Rows) : Except MappingFailure OpMaps :=
  hashOrder.foldlM (removeNonBarrierTask transitiveClosure) maps

def Op.positions : Op → Finset Nat
  | .barrier position => {position}
  | .task _ _ => ∅

/-- There is a row for each key. -/
def convertFromOpGraphToIndicesGraph (maps : OpMaps) : Rows := fun position =>
  if .barrier position ∈ maps.keys then
    (maps.opDependencies (.barrier position)).biUnion Op.positions
  else ∅

def closeDescending (closure : Rows) (size : Nat) : Rows :=
  (List.range size).reverse.foldl (fun closure idx =>
    Function.update closure idx (closure idx ∪ (closure idx).biUnion closure)) closure

def optimizeDepsMap (graph : Rows) (size : Nat) : Rows :=
  let depsMapClosure := closeDescending (closeAscending graph size) size
  (List.range size).reverse.foldl (fun graph idx =>
    if (graph idx).card ≤ 1 then graph
    else Function.update graph idx (graph idx \ (graph idx).biUnion depsMapClosure)) graph

/-- The dependencies of a barrier, those with a greater number first. -/
def sortedDependencies (graphOfIndicies : Rows) (barrier : Nat) : List Nat :=
  (graphOfIndicies barrier).sort (· ≥ ·)

def inDegrees (graphOfIndicies : Rows) (size dep : Nat) : Int :=
  ((List.range size).filter fun barrier => dep ∈ graphOfIndicies barrier).length

def moveAfter (ir : List Nat) (last op : Nat) : List Nat :=
  (ir.erase op).flatMap fun other => if other = last then [other, op] else [other]

/-- The barriers in the order they are brought to. A barrier is visited at most once. -/
def topologicalSort (lastOp : Nat) (dependencies : Nat → List Nat) (inDegrees : Nat → Int)
    (size : Nat) : Option (List Nat) := do
  let topologicalOrder ← TopologicalOrder.visit dependencies size ⟨[], [lastOp], inDegrees⟩
  let last ← topologicalOrder.getLast?
  return (topologicalOrder.takeWhile (· ≠ last)).foldl (moveAfter · last) (List.range size)

/-- The program after the pass, with the barriers by their numbers before it. -/
structure Mapped where
  dependencies : Nat → List Nat
  barriers : List Nat
  barrierCount : Nat
  barrierTasks : Option Nat

/-- `reindexBarrList` -/
def Mapped.index (mapped : Mapped) (barrier : Nat) : Nat := mapped.barriers.idxOf barrier

/-- The whole pass, when the hash map of the operations is walked in a given order. -/
def Program.safeRunOnFunc (prog : Program) (hashOrder : List Op) :
    Except MappingFailure Mapped := do
  if prog.size ≠ prog.barrierCount then .error .barrierCount
  else if prog.size > prog.barrierThreshold then .error .wlmRollback
  else
    let barDepTransClosure := closeAscending prog.barrierDependenciesInIndexRepresentation prog.size
    let maps ← removeNonBarrierTasksFromGraphWithTransitiveClosure hashOrder
      prog.buildOpDepsAdjacentLists barDepTransClosure
    let extendedBarToBarDependencies : Rows := fun barrier =>
      convertFromOpGraphToIndicesGraph maps barrier ∪
        prog.barrierDependenciesInIndexRepresentation barrier
    let graph := optimizeDepsMap extendedBarToBarDependencies prog.size
    if maps.keys.any fun op => op.positions = ∅ then .error .notOnlyBarriers
    else if prog.isFinalBarrier.getLast? ≠ some true then .error .lastNotFinal
    else if prog.size ≠ maps.keys.length then .error .barrierMissed
    else
      let dependencies := sortedDependencies graph
      match topologicalSort (prog.size - 1) dependencies (inDegrees graph prog.size)
          prog.size with
      | none => .error .unfinished
      | some barriers =>
        .ok { dependencies, barriers, barrierCount := barriers.length
              barrierTasks := barriers.head? }

/-! ### Closures -/

/-- The graph that the rows describe. -/
def Rows.Edge (rows : Rows) (dependency dependent : Nat) : Prop := dependency ∈ rows dependent

variable {graph closure : Rows}

/-- All dependencies of the closure follow from those of the graph. -/
def Rows.Closes (graph closure : Rows) : Prop :=
  ∀ dependent dependency, dependency ∈ closure dependent → TransGen graph.Edge dependency dependent

theorem Rows.Closes.join (closes : graph.Closes closure) {idx : Nat} {dependencies : Finset Nat}
    (known : ∀ dependency ∈ dependencies, TransGen graph.Edge dependency idx) :
    graph.Closes (Function.update closure idx (closure idx ∪ dependencies.biUnion closure)) := by
  intro dependent dependency mem
  by_cases same : dependent = idx
  · rw [same, update_self, Finset.mem_union, Finset.mem_biUnion] at mem
    rw [same]
    rcases mem with old | ⟨middle, inDependencies, inRow⟩
    · exact closes idx dependency old
    · exact (closes middle dependency inRow).trans (known middle inDependencies)
  · rw [update_of_ne same] at mem
    exact closes dependent dependency mem

theorem closes_closeAscending (graph : Rows) (size : Nat) :
    graph.Closes (closeAscending graph size) := by
  have sweep : ∀ (order : List Nat) {closure : Rows}, graph.Closes closure →
      graph.Closes (order.foldl (fun closure idx =>
        update closure idx (closure idx ∪ (graph idx).biUnion closure)) closure) := by
    intro order
    induction order with
    | nil => exact id
    | cons idx rest ih =>
      intro closure closes
      exact ih (closes.join fun _ mem => .single mem)
  exact sweep _ fun _ _ mem => .single mem

theorem Rows.Closes.closeDescending (closes : graph.Closes closure) (size : Nat) :
    graph.Closes (closeDescending closure size) := by
  have sweep : ∀ (order : List Nat) {closure : Rows}, graph.Closes closure →
      graph.Closes (order.foldl (fun closure idx =>
        update closure idx (closure idx ∪ (closure idx).biUnion closure)) closure) := by
    intro order
    induction order with
    | nil => exact id
    | cons idx rest ih =>
      intro closure closes
      exact ih (closes.join fun dependency mem => closes idx dependency mem)
  exact sweep _ closes

/-! ### Removing edges -/

theorem foldl_update (renew : Nat → Finset Nat → Finset Nat) (order : List Nat)
    (nodup : order.Nodup) (rows : Rows) (row : Nat) :
    order.foldl (fun rows idx => Function.update rows idx (renew idx (rows idx))) rows row =
      if row ∈ order then renew row (rows row) else rows row := by
  induction order generalizing rows with
  | nil => rfl
  | cons idx rest ih =>
    obtain ⟨apart, nodupRest⟩ := nodup_cons.mp nodup
    rw [foldl_cons, ih nodupRest]
    by_cases same : row = idx
    · rw [same, if_neg apart, if_pos mem_cons_self, update_self]
    · rw [update_of_ne same]
      simp only [mem_cons, same, false_or]

def reduceRow (closure : Rows) (row : Finset Nat) : Finset Nat :=
  if row.card ≤ 1 then row else row \ row.biUnion closure

theorem optimizeDepsMap_apply (graph : Rows) (size row : Nat) :
    optimizeDepsMap graph size row =
      if row < size then reduceRow (closeDescending (closeAscending graph size) size) (graph row)
      else graph row := by
  have step : (fun (rows : Rows) (idx : Nat) => if (rows idx).card ≤ 1 then rows
      else update rows idx (rows idx \ (rows idx).biUnion
        (closeDescending (closeAscending graph size) size))) =
      fun rows idx => update rows idx
        (reduceRow (closeDescending (closeAscending graph size) size) (rows idx)) := by
    funext rows idx
    unfold reduceRow
    split
    · exact (update_eq_self idx rows).symm
    · rfl
  unfold optimizeDepsMap
  rw [step, foldl_update _ _ (nodup_reverse.mpr nodup_range)]
  simp only [mem_reverse, mem_range]

theorem optimizeDepsMap_subset (graph : Rows) (size row : Nat) :
    optimizeDepsMap graph size row ⊆ graph row := by
  rw [optimizeDepsMap_apply]
  unfold reduceRow
  split
  · split
    · exact Finset.Subset.refl _
    · exact Finset.sdiff_subset
  · exact Finset.Subset.refl _

theorem bypassed_optimizeDepsMap (graph : Rows) (size : Nat) :
    Reachability.Bypassed graph.Edge (optimizeDepsMap graph size).Edge := by
  intro dependency dependent mem
  have closes := (closes_closeAscending graph size).closeDescending size
  by_cases kept : dependency ∈ optimizeDepsMap graph size dependent
  · exact .inl kept
  · rw [optimizeDepsMap_apply] at kept
    unfold reduceRow at kept
    split at kept
    · split at kept
      · exact absurd mem kept
      · rw [Finset.mem_sdiff, not_and, not_not] at kept
        obtain ⟨middle, inRow, closed⟩ := Finset.mem_biUnion.mp (kept mem)
        exact .inr ⟨middle, closes middle dependency closed, .single inRow⟩
    · exact absurd mem kept

/-! ### Moving the barriers -/

theorem moveAfter_eq {before moved after : List Nat} {last op : Nat} (other : op ≠ last)
    (apartBefore : last ∉ before) (apartAfter : last ∉ moved ++ after) (fresh : op ∉ moved)
    (mem : op ∈ before ++ after) :
    ∃ restBefore restAfter, moveAfter (before ++ last :: (moved ++ after)) last op =
        restBefore ++ last :: (op :: moved ++ restAfter) ∧
      (op :: (restBefore ++ restAfter)).Perm (before ++ after) := by
  have apart : op ∉ last :: moved := fun inKept => (mem_cons.mp inKept).elim other fresh
  obtain ⟨restBefore, restAfter, same, left⟩ : ∃ restBefore restAfter,
      (before ++ last :: (moved ++ after)).erase op = restBefore ++ last :: (moved ++ restAfter) ∧
      (op :: (restBefore ++ restAfter)).Perm (before ++ after) := Moves.erase_around apart mem
  refine ⟨restBefore, restAfter, ?_, left⟩
  have known : ∀ barrier ∈ restBefore ++ restAfter, barrier ∈ before ++ after := fun barrier
    inRest =>
    left.mem_iff.mp (mem_cons_of_mem _ inRest)
  have notLast : last ∉ before ++ after := fun inRest =>
    (mem_append.mp inRest).elim apartBefore fun inAfter => apartAfter (mem_append_right _ inAfter)
  unfold moveAfter
  rw [same, Moves.flatMap_replace (fun other => [other, op])
    (fun inRest => notLast (known last (mem_append_left _ inRest)))]
  · rfl
  · intro inRest
    rcases mem_append.mp inRest with inMoved | inAfter
    · exact apartAfter (mem_append_left _ inMoved)
    · exact notLast (known last (mem_append_right _ inAfter))

theorem foldl_moveAfter {last : Nat} (order : List Nat) :
    ∀ {before moved after : List Nat}, (last :: (moved ++ order)).Nodup →
      (before ++ after).Perm order →
      order.foldl (moveAfter · last) (before ++ last :: (moved ++ after)) =
        last :: (order.reverse ++ moved) := by
  induction order with
  | nil =>
    intro before moved after _ left
    obtain ⟨rfl, rfl⟩ := append_eq_nil_iff.mp left.eq_nil
    simp
  | cons op rest ih =>
    intro before moved after nodup left
    obtain ⟨lastApart, distinct⟩ := nodup_cons.mp nodup
    have notLast : last ∉ before ++ after := fun mem =>
      lastApart (mem_append_right _ (left.mem_iff.mp mem))
    have fresh : op ∉ moved := fun mem => (nodup_append.mp distinct).2.2 op mem op mem_cons_self rfl
    have other : op ≠ last := fun same => lastApart (same ▸ mem_append_right _ mem_cons_self)
    obtain ⟨restBefore, restAfter, moves, remaining⟩ := moveAfter_eq other
      (fun mem => notLast (mem_append_left _ mem))
      (fun mem => (mem_append.mp mem).elim (fun inMoved => lastApart (mem_append_left _ inMoved))
        fun inAfter => notLast (mem_append_right _ inAfter))
      fresh (left.mem_iff.mpr mem_cons_self)
    have middle : (moved ++ op :: rest).Perm (op :: (moved ++ rest)) := perm_middle
    have shifted : (last :: (op :: moved ++ rest)).Nodup := (middle.cons last).nodup_iff.mp nodup
    rw [foldl_cons, moves, ih shifted ((remaining.trans left).cons_inv)]
    simp

/-- The barriers are brought to the reverse of the order they were visited in. -/
theorem moves_eq {order : List Nat} {last size : Nat} (perm : order.Perm (List.range size))
    (ends : order.getLast? = some last) :
    (order.takeWhile (· ≠ last)).foldl (moveAfter · last) (List.range size) = order.reverse := by
  obtain ⟨others, rfl⟩ := getLast?_eq_some_iff.mp ends
  have nodup := perm.nodup_iff.mpr nodup_range
  obtain ⟨distinct, -, apart⟩ := nodup_append.mp nodup
  have notLast : last ∉ others := fun mem => apart last mem last
    (mem_singleton_self _) rfl
  have taken : (others ++ [last]).takeWhile (fun other => decide (other ≠ last)) = others := by
    rw [takeWhile_append_of_pos fun other mem => decide_eq_true (ne_of_mem_of_not_mem mem notLast)]
    simp
  have mem : last ∈ List.range size := perm.mem_iff.mp (mem_append_right _ (mem_singleton_self _))
  obtain ⟨before, after, split⟩ := append_of_mem mem
  have left : (before ++ after).Perm others := by
    have middle : (before ++ last :: after).Perm (last :: (before ++ after)) := perm_middle
    rw [← split] at middle
    exact ((middle.symm.trans perm.symm).trans (perm_append_singleton last others)).cons_inv
  rw [taken, split]
  have moved : others.foldl (moveAfter · last) (before ++ last :: ([] ++ after)) =
      last :: (others.reverse ++ []) :=
    foldl_moveAfter others (nodup_cons.mpr ⟨notLast, distinct⟩) left
  rw [nil_append, append_nil] at moved
  rw [moved, reverse_append]
  rfl

/-! ### The sweeps -/

structure DependencyGraph where
  rows : Rows
  size : Nat
  bounded : ∀ dependency dependent, rows.Edge dependency dependent →
    dependency < size ∧ dependent < size
  acyclic : Acyclic rows.Edge

/-! ### Paths that the sweeps find -/

/-- A path of dependencies whose numbers fall, except that the step before the last one may rise. -/
inductive Rows.Falling (graph : Rows) : Nat → Nat → Prop
  | edge {dependency dependent : Nat} (step : dependency ∈ graph dependent) :
      Falling graph dependency dependent
  | rise {dependency middle dependent : Nat} (step : middle ∈ graph dependent)
      (rises : dependent < middle) (last : dependency ∈ graph middle) :
      Falling graph dependency dependent
  | fall {dependency middle dependent : Nat} (step : middle ∈ graph dependent)
      (falls : middle < dependent) (rest : Falling graph dependency middle) :
      Falling graph dependency dependent

/-- Such paths, one behind the other, each from a greater number than the one before, except that
the last one may be from a smaller number. -/
inductive Rows.Found (graph : Rows) : Nat → Nat → Prop
  | falling {dependency dependent : Nat} (path : graph.Falling dependency dependent) :
      Found graph dependency dependent
  | fall {dependency middle dependent : Nat} (path : graph.Falling middle dependent)
      (falls : middle < dependent) (last : graph.Falling dependency middle) :
      Found graph dependency dependent
  | rise {dependency middle dependent : Nat} (path : graph.Falling middle dependent)
      (rises : dependent < middle) (rest : Found graph dependency middle) :
      Found graph dependency dependent

variable {graph : Rows} {dependency dependent : Nat}

theorem Rows.Falling.transGen (path : graph.Falling dependency dependent) :
    TransGen graph.Edge dependency dependent := by
  induction path with
  | edge step => exact .single step
  | rise step _ last => exact .tail (.single last) step
  | fall step _ _ ih => exact ih.tail step

theorem Rows.Found.transGen (found : graph.Found dependency dependent) :
    TransGen graph.Edge dependency dependent := by
  induction found with
  | falling path => exact path.transGen
  | fall path _ last => exact last.transGen.trans path.transGen
  | rise path _ _ ih => exact ih.trans path.transGen

namespace DependencyGraph

variable (graph : DependencyGraph)

def closed : Rows := closeDescending (closeAscending graph.rows graph.size) graph.size

def reduced : Rows := optimizeDepsMap graph.rows graph.size

/-- The same nodes are reachable, and no node keeps a dependency that is reachable through another
one. -/
structure Reduces : Prop where
  same : SameReachability graph.rows.Edge graph.reduced.Edge
  direct : ∀ dependent, ∀ dependency ∈ graph.reduced dependent, ∀ other ∈ graph.reduced dependent,
    ¬ TransGen graph.reduced.Edge dependency other

/-- Whenever a dependency is reachable through another one, it is found through another one. -/
def AllFound : Prop :=
  ∀ dependent, ∀ dependency ∈ graph.rows dependent,
    (∃ other ∈ graph.rows dependent, TransGen graph.rows.Edge dependency other) →
      ∃ other ∈ graph.rows dependent, graph.rows.Found dependency other

variable {graph}

/-! ### The two sweeps -/

variable {dependency dependent : Nat}

theorem inside_of_mem (mem : dependency ∈ graph.rows dependent) : dependent < graph.size :=
  (graph.bounded dependency dependent mem).2

theorem inside_of_transGen (path : TransGen graph.rows.Edge dependency dependent) :
    dependent < graph.size := by
  cases path with
  | single step => exact inside_of_mem step
  | tail _ step => exact inside_of_mem step

theorem closeAscending_row (inside : dependent < graph.size) :
    dependency ∈ closeAscending graph.rows graph.size dependent ↔
      dependency ∈ graph.rows dependent ∨ ∃ middle ∈ graph.rows dependent,
        dependency ∈ if middle < dependent then closeAscending graph.rows graph.size middle
          else graph.rows middle := by
  have swept : closeAscending graph.rows graph.size dependent = _ :=
    Sweep.sweep_eq pairwise_lt_range (fun less greater => lt_asymm less greater)
      (mem_range.mpr inside) graph.rows
  have below : ∀ other, (other ∈ range graph.size ∧ other < dependent) ↔ other < dependent :=
    fun other => and_iff_right_of_imp fun less => mem_range.mpr (less.trans inside)
  simp only [below] at swept
  rw [swept, if_neg (lt_irrefl _), Finset.mem_union, Finset.mem_biUnion]
  rfl

theorem closeAscending_outside (outside : ¬ dependent < graph.size) :
    closeAscending graph.rows graph.size dependent = graph.rows dependent :=
  Sweep.sweep_of_not_mem (mt mem_range.mp outside) _

theorem mem_closeAscending :
    dependency ∈ closeAscending graph.rows graph.size dependent ↔
      graph.rows.Falling dependency dependent := by
  induction dependent using Nat.strong_induction_on with
  | _ dependent ih =>
    constructor
    · intro mem
      by_cases inside : dependent < graph.size
      · rcases (closeAscending_row inside).mp mem with direct | ⟨middle, step, further⟩
        · exact .edge direct
        · split at further
          · next falls => exact .fall step falls ((ih middle falls).mp further)
          · next rises =>
            refine .rise step (lt_of_le_of_ne (not_lt.mp rises) ?_) further
            rintro rfl
            exact graph.acyclic _ (.single step)
      · rw [closeAscending_outside inside] at mem
        exact .edge mem
    · intro path
      have inside := inside_of_transGen path.transGen
      refine (closeAscending_row inside).mpr ?_
      cases path with
      | edge step => exact .inl step
      | rise step rises last => exact .inr ⟨_, step, by rwa [if_neg (lt_asymm rises)]⟩
      | fall step falls rest =>
        exact .inr ⟨_, step, by rw [if_pos falls]; exact (ih _ falls).mpr rest⟩

theorem closed_row (inside : dependent < graph.size) :
    dependency ∈ graph.closed dependent ↔
      graph.rows.Falling dependency dependent ∨ ∃ middle, graph.rows.Falling middle dependent ∧
        if dependent < middle then dependency ∈ graph.closed middle
          else graph.rows.Falling dependency middle := by
  have sorted : (range graph.size).reverse.Pairwise fun first second => second < first :=
    pairwise_reverse.mpr pairwise_lt_range
  have swept : graph.closed dependent = _ := Sweep.sweep_eq sorted
    (fun less greater => lt_asymm less greater)
    (mem_reverse.mpr (mem_range.mpr inside)) (closeAscending graph.rows graph.size)
  have table : (fun other => if other ∈ (range graph.size).reverse ∧ dependent < other then
      graph.closed other else closeAscending graph.rows graph.size other) =
        fun other => if dependent < other then graph.closed other
          else closeAscending graph.rows graph.size other := by
    funext other
    by_cases within : other ∈ (range graph.size).reverse
    · simp only [within, true_and]
    · have outside : graph.closed other = closeAscending graph.rows graph.size other :=
        Sweep.sweep_of_not_mem within _
      rw [if_neg (fun both => within both.1), outside, ite_self]
  rw [swept]
  have renewed := congrArg
    (fun closure : Rows => closure dependent ∪ (closure dependent).biUnion closure) table
  refine (iff_of_eq (congrArg (dependency ∈ ·) renewed)).trans ?_
  simp only [lt_self_iff_false, if_false, Finset.mem_union, Finset.mem_biUnion, mem_closeAscending]
  refine or_congr_right (exists_congr fun middle => and_congr_right fun _ => ?_)
  split
  · rfl
  · exact mem_closeAscending

theorem mem_closed (inside : dependent < graph.size) :
    dependency ∈ graph.closed dependent ↔ graph.rows.Found dependency dependent := by
  induction left : graph.size - dependent using Nat.strong_induction_on generalizing dependent with
  | _ count ih =>
    have greater : ∀ {middle}, dependent < middle → graph.rows.Falling middle dependent →
        (dependency ∈ graph.closed middle ↔ graph.rows.Found dependency middle) := by
      intro middle rises path
      have within := lt_of_transGen_of_bounded (fun _ _ step => (graph.bounded _ _ step).1)
        path.transGen
      exact ih (graph.size - middle) (by omega) within rfl
    rw [closed_row inside]
    constructor
    · rintro (path | ⟨middle, path, further⟩)
      · exact .falling path
      · split at further
        · next rises => exact .rise path rises ((greater rises path).mp further)
        · next falls =>
          refine .fall path (lt_of_le_of_ne (not_lt.mp falls) ?_) further
          rintro rfl
          exact graph.acyclic _ path.transGen
    · intro found
      cases found with
      | falling path => exact .inl path
      | fall path falls last => exact .inr ⟨_, path, by rwa [if_neg (Nat.lt_asymm falls)]⟩
      | rise path rises rest =>
        exact .inr ⟨_, path, by rw [if_pos rises]; exact (greater rises path).mpr rest⟩

/-! ### What is left -/

theorem mem_reduced :
    dependency ∈ graph.reduced dependent ↔ dependency ∈ graph.rows dependent ∧
      ¬ ∃ other ∈ graph.rows dependent, graph.rows.Found dependency other := by
  by_cases inside : dependent < graph.size
  · have closed : (∃ other ∈ graph.rows dependent, graph.rows.Found dependency other) ↔
        dependency ∈ (graph.rows dependent).biUnion graph.closed := by
      rw [Finset.mem_biUnion]
      refine exists_congr fun other => and_congr_right fun step => ?_
      exact (mem_closed (graph.bounded _ _ step).1).symm
    have reduced : graph.reduced dependent = reduceRow graph.closed (graph.rows dependent) := by
      rw [DependencyGraph.reduced, optimizeDepsMap_apply, if_pos inside]
      rfl
    rw [reduced, closed, reduceRow]
    split
    · next single =>
      refine ⟨fun mem => ⟨mem, fun inClosure => ?_⟩, And.left⟩
      obtain ⟨other, step, found⟩ := closed.mpr inClosure
      obtain rfl := Finset.card_le_one.mp single _ mem _ step
      exact graph.acyclic _ found.transGen
    · rw [Finset.mem_sdiff]
  · have none : graph.rows dependent = ∅ :=
      Finset.eq_empty_of_forall_notMem fun other mem => inside (inside_of_mem mem)
    have reduced : graph.reduced dependent = graph.rows dependent := by
      rw [DependencyGraph.reduced, optimizeDepsMap_apply, if_neg inside]
    simp [reduced, none]

theorem sameReachability_reduced : SameReachability graph.rows.Edge graph.reduced.Edge :=
  graph.acyclic.sameReachability (fun _ _ step => (graph.bounded _ _ step).1)
    (bypassed_optimizeDepsMap graph.rows graph.size)
    fun _ dependent step => optimizeDepsMap_subset graph.rows graph.size dependent step

/-- What is reachable never changes, and no dependency is left that is reachable through another one
just when each of these is found by the sweeps. -/
theorem optimizeDepsMap_reduces_iff (graph : DependencyGraph) : graph.Reduces ↔ graph.AllFound := by
  constructor
  · rintro ⟨same, direct⟩ dependent dependency mem ⟨other, step, path⟩
    by_contra missed
    have kept := mem_reduced.mpr ⟨mem, missed⟩
    -- the path to the node goes through a dependency that is left
    obtain ⟨last, reaches, stays⟩ := TransGen.tail'_iff.mp
      ((same other dependent).mpr (.single step))
    exact direct dependent dependency kept last stays
      (((same dependency other).mpr path).trans_left reaches)
  · intro all
    refine ⟨sameReachability_reduced, fun dependent dependency kept other stays path => ?_⟩
    obtain ⟨mem, missed⟩ := mem_reduced.mp kept
    exact missed (all dependent dependency mem
      ⟨other, (mem_reduced.mp stays).1, (sameReachability_reduced dependency other).mp path⟩)

/-- The dependencies of each node. From 6 down to 3 the path passes 2, 5, 1, 4 and 0. -/
def zigzagRows : Rows := fun node => [{3}, {4}, {5}, ∅, {0}, {1}, {2}, {3, 6}].getD node ∅

/-- The places of the nodes in a topological order. -/
def zigzagPlace (node : Nat) : Nat := [1, 3, 5, 0, 2, 4, 6, 7].getD node 0

theorem zigzagRows_step (step : zigzagRows.Edge dependency dependent) :
    dependency < 8 ∧ dependent < 8 ∧ zigzagPlace dependency < zigzagPlace dependent := by
  have inside : dependent < 8 := by
    by_contra outside
    have none : zigzagRows dependent = ∅ := by
      rw [zigzagRows, getD_eq_getElem?_getD, getElem?_eq_none (not_lt.mp outside)]
      rfl
    rw [Rows.Edge, none] at step
    exact Finset.notMem_empty _ step
  have all : ∀ dependent < 8, ∀ dependency ∈ zigzagRows dependent,
      dependency < 8 ∧ dependent < 8 ∧ zigzagPlace dependency < zigzagPlace dependent := by
    decide
  exact all dependent inside dependency step

def zigzag : DependencyGraph where
  rows := zigzagRows
  size := 8
  bounded := fun _ _ step => ⟨(zigzagRows_step step).1, (zigzagRows_step step).2.1⟩
  acyclic := acyclic_of_measure zigzagPlace fun step => (zigzagRows_step step).2.2

/-- The last node keeps its dependency on 3, which it also reaches through 6. -/
theorem zigzag_kept : ¬ zigzag.Reduces := by
  rintro ⟨same, direct⟩
  have kept : 3 ∈ zigzag.reduced 7 ∧ 6 ∈ zigzag.reduced 7 := by decide +kernel
  have path : TransGen zigzag.rows.Edge 3 6 := by
    have steps : ∀ {lower upper}, lower ∈ zigzagRows upper → zigzag.rows.Edge lower upper := id
    refine .tail (b := 2) (.tail (b := 5) (.tail (b := 1) (.tail (b := 4) (.tail (b := 0)
      (.single ?_) ?_) ?_) ?_) ?_) ?_
    all_goals exact steps (by decide)
  exact direct 7 3 kept.1 6 kept.2 ((same 3 6).mpr path)

end DependencyGraph

end NpuPlugin.BarrierTopologicalMapping
