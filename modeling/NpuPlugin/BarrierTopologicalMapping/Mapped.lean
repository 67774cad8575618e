/-
This file proves that the pass is faithful: taking the tasks out of the graph loses no path between
barriers and makes up none, and the new numbers of the barriers are a topological order that ends
with the final barrier.
-/

import NpuPlugin.BarrierTopologicalMapping.Model

namespace NpuPlugin.BarrierTopologicalMapping

open List Reachability Relation

namespace Program

variable {prog : Program}

/-- The graph of the tasks and the barriers: a task waits for its wait barriers and for the task
before it in its list, and its update barriers wait for it. -/
inductive Edge (prog : Program) : Op → Op → Prop
  | wait {barrier list place : Nat} (waits : barrier ∈ prog.waitBarriers (.task list place)) :
      Edge prog (.barrier barrier) (.task list place)
  | update {barrier list place : Nat}
      (updates : barrier ∈ prog.updateBarriers (.task list place)) :
      Edge prog (.task list place) (.barrier barrier)
  | next {list place : Nat} (next : (prog.taskAt list (place + 1)).isSome) :
      Edge prog (.task list place) (.task list (place + 1))

def Path (prog : Program) : Op → Op → Prop := TransGen prog.Edge

/-- A barrier that a producer of another one waits for. -/
def Direct (prog : Program) (dependency dependent : Nat) : Prop :=
  dependency ∈ prog.barrierDependenciesInIndexRepresentation dependent

/-! ### The operations -/

variable {place list barrier : Nat}

theorem isSome_getElem? {tasks : List Task} : tasks[place]?.isSome ↔ place < tasks.length := by simp

theorem mem_tasks : Op.task list place ∈ prog.tasks ↔ (prog.taskAt list place).isSome := by
  unfold tasks taskAt
  simp only [mem_flatMap, mem_range, mem_map, Op.task.injEq, Option.isSome_bind]
  constructor
  · rintro ⟨found, inside, other, below, rfl, rfl⟩
    rw [getElem?_eq_getElem inside]
    rw [getD_eq_getElem?_getD, getElem?_eq_getElem inside] at below
    exact isSome_getElem?.mpr below
  · intro found
    by_cases inside : list < prog.lists.length
    · rw [getElem?_eq_getElem inside] at found
      refine ⟨list, inside, place, ?_, rfl, rfl⟩
      rw [getD_eq_getElem?_getD, getElem?_eq_getElem inside]
      exact isSome_getElem?.mp found
    · rw [getElem?_eq_none (not_lt.mp inside)] at found
      cases found

theorem barrier_mem_ops {position : Nat} :
    Op.barrier position ∈ prog.ops ↔ position < prog.size := by
  unfold ops tasks
  simp

theorem task_mem_ops : Op.task list place ∈ prog.ops ↔ (prog.taskAt list place).isSome := by
  unfold ops
  rw [mem_append, mem_tasks]
  simp

theorem known_of_mem {barriersOf : Task → List Nat}
    (contained : ∀ task, barriersOf task ⊆ task.waitBarriers ++ task.updateBarriers)
    (mem : barrier ∈ ((prog.taskAt list place).map barriersOf).getD []) :
    (prog.taskAt list place).isSome ∧ barrier < prog.size := by
  cases found : prog.taskAt list place with
  | none =>
    rw [found] at mem
    cases mem
  | some task =>
    rw [found] at mem
    refine ⟨rfl, ?_⟩
    obtain ⟨tasks, inLists, inTasks⟩ := Option.bind_eq_some_iff.mp found
    exact prog.barriers_lt tasks (mem_of_getElem? inLists) task
      (mem_of_getElem? inTasks) barrier (contained task mem)

theorem known_of_mem_waitBarriers (waits : barrier ∈ prog.waitBarriers (.task list place)) :
    (prog.taskAt list place).isSome ∧ barrier < prog.size :=
  known_of_mem (fun _ => subset_append_left _ _) waits

theorem known_of_mem_updateBarriers (updates : barrier ∈ prog.updateBarriers (.task list place)) :
    (prog.taskAt list place).isSome ∧ barrier < prog.size :=
  known_of_mem (fun _ => subset_append_right _ _) updates

theorem isSome_of_next (next : (prog.taskAt list (place + 1)).isSome) :
    (prog.taskAt list place).isSome := by
  unfold taskAt at next ⊢
  cases found : prog.lists[list]? with
  | none =>
    rw [found] at next
    cases next
  | some tasks =>
    rw [found] at next
    have below : place + 1 < tasks.length := isSome_getElem?.mp next
    exact isSome_getElem?.mpr (Nat.lt_of_succ_lt below)

theorem Edge.mem_ops {first second : Op} (edge : prog.Edge first second) :
    first ∈ prog.ops ∧ second ∈ prog.ops := by
  cases edge with
  | wait waits =>
    obtain ⟨isTask, below⟩ := known_of_mem_waitBarriers waits
    exact ⟨barrier_mem_ops.mpr below, task_mem_ops.mpr isTask⟩
  | update updates =>
    obtain ⟨isTask, below⟩ := known_of_mem_updateBarriers updates
    exact ⟨task_mem_ops.mpr isTask, barrier_mem_ops.mpr below⟩
  | next next => exact ⟨task_mem_ops.mpr (isSome_of_next next), task_mem_ops.mpr next⟩

/-! ### The maps of the whole graph -/

variable {op first second : Op} {dependency dependent : Nat}

theorem mem_getPreviousTask :
    op ∈ getPreviousTask (.task list place) ↔
      ∃ before, place = before + 1 ∧ op = .task list before := by
  cases place with
  | zero => simp [getPreviousTask]
  | succ before => simp [getPreviousTask]

theorem mem_getNextTask :
    op ∈ prog.getNextTask (.task list place) ↔
      (prog.taskAt list (place + 1)).isSome ∧ op = .task list (place + 1) := by
  have defined : prog.getNextTask (.task list place) =
      if (prog.taskAt list (place + 1)).isSome then {.task list (place + 1)} else ∅ := rfl
  rw [defined]
  split
  · rename_i found
    simp [found]
  · rename_i absent
    simp [absent]

theorem mem_opDependencies (known : second ∈ prog.ops) :
    first ∈ prog.buildOpDepsAdjacentLists.opDependencies second ↔ prog.Edge first second := by
  cases second with
  | barrier position =>
    have members : first ∈ prog.buildOpDepsAdjacentLists.opDependencies (.barrier position) ↔
        first ∈ prog.tasks ∧ position ∈ prog.updateBarriers first := by
      simp [buildOpDepsAdjacentLists, getBarrierProducers]
    rw [members]
    constructor
    · rintro ⟨isTask, updates⟩
      cases first with
      | barrier other => cases updates
      | task list place => exact .update updates
    · intro edge
      cases edge with
      | update updates => exact ⟨mem_tasks.mpr (known_of_mem_updateBarriers updates).1, updates⟩
  | task list place =>
    have members : first ∈ prog.buildOpDepsAdjacentLists.opDependencies (.task list place) ↔
        (∃ barrier ∈ prog.waitBarriers (.task list place), .barrier barrier = first) ∨
          first ∈ getPreviousTask (.task list place) := by
      simp [buildOpDepsAdjacentLists]
    rw [members, mem_getPreviousTask]
    constructor
    · rintro (⟨barrier, waits, rfl⟩ | ⟨before, rfl, rfl⟩)
      · exact .wait waits
      · exact .next (task_mem_ops.mp known)
    · intro edge
      cases edge with
      | wait waits => exact .inl ⟨_, waits, rfl⟩
      | next next => exact .inr ⟨_, rfl, rfl⟩

theorem mem_opDependents :
    second ∈ prog.buildOpDepsAdjacentLists.opDependents first ↔ prog.Edge first second := by
  cases first with
  | barrier position =>
    have members : second ∈ prog.buildOpDepsAdjacentLists.opDependents (.barrier position) ↔
        second ∈ prog.tasks ∧ position ∈ prog.waitBarriers second := by
      simp [buildOpDepsAdjacentLists, getBarrierConsumers]
    rw [members]
    constructor
    · rintro ⟨isTask, waits⟩
      cases second with
      | barrier other => cases waits
      | task list place => exact .wait waits
    · intro edge
      cases edge with
      | wait waits => exact ⟨mem_tasks.mpr (known_of_mem_waitBarriers waits).1, waits⟩
  | task list place =>
    have members : second ∈ prog.buildOpDepsAdjacentLists.opDependents (.task list place) ↔
        (∃ barrier ∈ prog.updateBarriers (.task list place), .barrier barrier = second) ∨
          second ∈ prog.getNextTask (.task list place) := by
      simp [buildOpDepsAdjacentLists]
    rw [members, mem_getNextTask]
    constructor
    · rintro (⟨barrier, updates, rfl⟩ | ⟨next, rfl⟩)
      · exact .update updates
      · exact .next next
    · intro edge
      cases edge with
      | update updates => exact .inl ⟨_, updates, rfl⟩
      | next next => exact .inr ⟨next, rfl⟩

theorem direct_iff :
    prog.Direct dependency dependent ↔ ∃ list place,
      dependency ∈ prog.waitBarriers (.task list place) ∧
        dependent ∈ prog.updateBarriers (.task list place) := by
  unfold Direct barrierDependenciesInIndexRepresentation setIndicesOfWaitBarriersForOps
  constructor
  · intro mem
    split at mem
    · simp only [Finset.empty_union, Finset.mem_biUnion, mem_toFinset, getBarrierProducers,
        mem_filter, decide_eq_true_eq] at mem
      obtain ⟨op, ⟨isTask, updates⟩, waits⟩ := mem
      cases op with
      | barrier other => cases waits
      | task list place => exact ⟨list, place, waits, updates⟩
    · cases mem
  · rintro ⟨list, place, waits, updates⟩
    obtain ⟨isTask, below⟩ := known_of_mem_updateBarriers updates
    rw [if_pos below]
    simp only [Finset.empty_union, Finset.mem_biUnion, mem_toFinset, getBarrierProducers,
      mem_filter, decide_eq_true_eq]
    exact ⟨.task list place, ⟨mem_tasks.mpr isTask, updates⟩, waits⟩

theorem Direct.path (direct : prog.Direct dependency dependent) :
    prog.Path (.barrier dependency) (.barrier dependent) := by
  obtain ⟨list, place, waits, updates⟩ := direct_iff.mp direct
  exact (TransGen.single (.wait waits)).tail (.update updates)

theorem Direct.lt (direct : prog.Direct dependency dependent) :
    dependency < prog.size ∧ dependent < prog.size := by
  obtain ⟨list, place, waits, updates⟩ := direct_iff.mp direct
  exact ⟨(known_of_mem_waitBarriers waits).2, (known_of_mem_updateBarriers updates).2⟩

/-! ### Taking out a task -/

/-- What is left of the graph: the dependencies of the operations that are left, and the direct
dependencies between barriers. -/
def Linked (prog : Program) (maps : OpMaps) (first second : Op) : Prop :=
  first ∈ maps.keys ∧ second ∈ maps.keys ∧ (first ∈ maps.opDependencies second ∨
    ∃ dependency dependent, first = .barrier dependency ∧ second = .barrier dependent ∧
      prog.Direct dependency dependent)

/-- The paths between the operations that are left are those of the whole graph. -/
structure Faithful (prog : Program) (maps : OpMaps) : Prop where
  keys_nodup : maps.keys.Nodup
  barriers_mem : ∀ position, Op.barrier position ∈ maps.keys ↔ position < prog.size
  deps_mem : ∀ op ∈ maps.keys, ∀ dep ∈ maps.opDependencies op, dep ∈ maps.keys
  dependents_mem : ∀ op ∈ maps.keys, ∀ dependent ∈ maps.opDependents op, dependent ∈ maps.keys
  /-- Dependencies between barriers may be missing among the dependencies. -/
  mutual_iff : ∀ first ∈ maps.keys, ∀ second ∈ maps.keys,
    (∀ dependency dependent, ¬ (first = .barrier dependency ∧ second = .barrier dependent)) →
      (second ∈ maps.opDependents first ↔ first ∈ maps.opDependencies second)
  sound : ∀ second ∈ maps.keys, ∀ first ∈ maps.opDependencies second, prog.Path first second
  complete : ∀ first ∈ maps.keys, ∀ second ∈ maps.keys, prog.Path first second →
    TransGen (prog.Linked maps) first second

theorem nodup_ops : prog.ops.Nodup := by
  refine nodup_append.mpr ⟨?_, ?_, ?_⟩
  · exact nodup_range.map fun first second same => by injection same
  · refine nodup_flatMap.mpr ⟨fun list _ => ?_, ?_⟩
    · exact nodup_range.map fun first second same => by injection same
    · refine nodup_range.imp fun {first second} apart op inFirst inSecond => apart ?_
      obtain ⟨firstPlace, -, rfl⟩ := mem_map.mp inFirst
      obtain ⟨secondPlace, -, same⟩ := mem_map.mp inSecond
      injection same with lists
      exact lists.symm
  · intro first isBarrier second isTask same
    obtain ⟨position, -, rfl⟩ := mem_map.mp isBarrier
    obtain ⟨list, -, inList⟩ := mem_flatMap.mp isTask
    obtain ⟨place, -, rfl⟩ := mem_map.mp inList
    cases same

theorem faithful_initial : prog.Faithful prog.buildOpDepsAdjacentLists where
  keys_nodup := nodup_ops
  barriers_mem _ := barrier_mem_ops
  deps_mem _ known _ mem := ((mem_opDependencies known).mp mem).mem_ops.1
  dependents_mem _ _ _ mem := (mem_opDependents.mp mem).mem_ops.2
  mutual_iff _ _ _ known _ := mem_opDependents.trans (mem_opDependencies known).symm
  sound _ known _ mem := .single ((mem_opDependencies known).mp mem)
  complete _ _ _ _ path := by
    refine TransGen.mono (fun _ _ edge => ?_) _ _ path
    exact ⟨edge.mem_ops.1, edge.mem_ops.2, .inl ((mem_opDependencies edge.mem_ops.2).mpr edge)⟩

/-- Dependencies between barriers that follow from the direct ones. -/
def Follows (prog : Program) (transitiveClosure : Rows) : Prop :=
  ∀ dependent dependency, dependency ∈ transitiveClosure dependent →
    TransGen prog.Direct dependency dependent

section

variable {transitiveClosure : Rows} {maps : OpMaps} {op : Op}

theorem mem_opDependencies_replace (other : first ≠ op) :
    first ∈ (replaceByEdges transitiveClosure maps op).opDependencies second ↔
      first ∈ maps.opDependencies second ∨ second ∈ maps.opDependents op ∧
        first ∈ maps.opDependencies op ∧ implied transitiveClosure first second = false := by
  unfold replaceByEdges
  dsimp only
  split
  · rename_i dependent
    simp only [Finset.mem_erase, Finset.mem_union, Finset.mem_filter, Bool.not_eq_true',
      ne_eq, other, not_false_eq_true, true_and, dependent]
  · rename_i apart
    simp only [apart, false_and, or_false]

theorem mem_opDependents_replace (other : second ≠ op) :
    second ∈ (replaceByEdges transitiveClosure maps op).opDependents first ↔
      second ∈ maps.opDependents first ∨
        first ∈ maps.opDependencies op ∧ second ∈ maps.opDependents op := by
  unfold replaceByEdges
  dsimp only
  split
  · rename_i dependency
    simp only [Finset.mem_erase, Finset.mem_union, ne_eq, other, not_false_eq_true, true_and,
      dependency]
  · rename_i apart
    simp only [apart, false_and, or_false]

theorem notMem_opDependencies_replace
    (dependent : op ∈ maps.opDependencies second → second ∈ maps.opDependents op) :
    op ∉ (replaceByEdges transitiveClosure maps op).opDependencies second := by
  unfold replaceByEdges
  dsimp only
  split
  · exact Finset.notMem_erase _ _
  · rename_i apart
    exact fun mem => apart (dependent mem)

theorem notMem_opDependents_replace
    (dependency : op ∈ maps.opDependents first → first ∈ maps.opDependencies op) :
    op ∉ (replaceByEdges transitiveClosure maps op).opDependents first := by
  unfold replaceByEdges
  dsimp only
  split
  · exact Finset.notMem_erase _ _
  · rename_i apart
    exact fun mem => apart (dependency mem)

theorem eq_barriers_of_implied (implied : implied transitiveClosure first second = true) :
    ∃ dependency dependent, first = .barrier dependency ∧ second = .barrier dependent ∧
      dependency ∈ transitiveClosure dependent := by
  cases first with
  | task list place => cases implied
  | barrier dependency =>
    cases second with
    | task list place => cases implied
    | barrier dependent => exact ⟨dependency, dependent, rfl, rfl, of_decide_eq_true implied⟩

/-- Direct dependencies between barriers are links, whatever is taken out. -/
theorem linked_of_direct
    (barriers_mem : ∀ position, Op.barrier position ∈ maps.keys ↔ position < prog.size)
    (path : TransGen prog.Direct dependency dependent) :
    TransGen (prog.Linked maps) (.barrier dependency) (.barrier dependent) := by
  refine TransGen.lift Op.barrier (fun first second direct => ?_) _ _ path
  exact ⟨(barriers_mem first).mpr direct.lt.1, (barriers_mem second).mpr direct.lt.2,
    .inr ⟨first, second, rfl, rfl, direct⟩⟩

theorem Faithful.replaceTask (acyclic : ∀ op, ¬ prog.Path op op)
    (faithful : prog.Faithful maps) (follows : prog.Follows transitiveClosure)
    (mem : op ∈ maps.keys) (isTask : ∀ position, op ≠ .barrier position) :
    prog.Faithful (replaceByEdges transitiveClosure maps op) := by
  obtain ⟨keys_nodup, barriers_mem, deps_mem, dependents_mem, mutual_iff, sound, complete⟩ :=
    faithful
  have left_iff : ∀ other, other ∈ (replaceByEdges transitiveClosure maps op).keys ↔
      other ≠ op ∧ other ∈ maps.keys := fun other => keys_nodup.mem_erase_iff
  have of_task : ∀ second ∈ maps.keys,
      (second ∈ maps.opDependents op ↔ op ∈ maps.opDependencies second) :=
    fun second known => mutual_iff _ mem second known fun _ _ both => isTask _ both.1
  have to_task : ∀ first ∈ maps.keys,
      (op ∈ maps.opDependents first ↔ first ∈ maps.opDependencies op) :=
    fun first known => mutual_iff first known _ mem fun _ _ both => isTask _ both.2
  have barriers_left : ∀ position, Op.barrier position ∈
      (replaceByEdges transitiveClosure maps op).keys ↔ position < prog.size := fun position =>
    (left_iff _).trans ((and_iff_right (isTask position).symm).trans (barriers_mem position))
  refine ⟨keys_nodup.erase _, barriers_left, ?_, ?_, ?_, ?_, ?_⟩
  · intro second known first found
    obtain ⟨-, secondKnown⟩ := (left_iff second).mp known
    have other : first ≠ op := fun same =>
      notMem_opDependencies_replace (of_task second secondKnown).mpr (same ▸ found)
    refine (left_iff first).mpr ⟨other, ?_⟩
    rcases (mem_opDependencies_replace other).mp found with old | ⟨-, dependency, -⟩
    · exact deps_mem second secondKnown first old
    · exact deps_mem op mem first dependency
  · intro first known second found
    obtain ⟨-, firstKnown⟩ := (left_iff first).mp known
    have other : second ≠ op := fun same =>
      notMem_opDependents_replace (to_task first firstKnown).mp (same ▸ found)
    refine (left_iff second).mpr ⟨other, ?_⟩
    rcases (mem_opDependents_replace other).mp found with old | ⟨-, dependent⟩
    · exact dependents_mem first firstKnown second old
    · exact dependents_mem op mem second dependent
  · intro first firstLeft second secondLeft notBarriers
    obtain ⟨firstOther, firstKnown⟩ := (left_iff first).mp firstLeft
    obtain ⟨secondOther, secondKnown⟩ := (left_iff second).mp secondLeft
    have notImplied : implied transitiveClosure first second = false := by
      refine Bool.eq_false_iff.mpr fun implied => ?_
      obtain ⟨dependency, dependent, isFirst, isSecond, -⟩ := eq_barriers_of_implied implied
      exact notBarriers dependency dependent ⟨isFirst, isSecond⟩
    rw [mem_opDependents_replace secondOther, mem_opDependencies_replace firstOther,
      mutual_iff first firstKnown second secondKnown notBarriers]
    exact or_congr_right ⟨fun both => ⟨both.2, both.1, notImplied⟩, fun all => ⟨all.2.1, all.1⟩⟩
  · intro second secondLeft first found
    obtain ⟨-, secondKnown⟩ := (left_iff second).mp secondLeft
    have other : first ≠ op := fun same =>
      notMem_opDependencies_replace (of_task second secondKnown).mpr (same ▸ found)
    rcases (mem_opDependencies_replace other).mp found with old | ⟨dependent, dependency, -⟩
    · exact sound second secondKnown first old
    · exact (sound op mem first dependency).trans
        (sound second secondKnown op ((of_task second secondKnown).mp dependent))
  · intro first firstLeft second secondLeft path
    obtain ⟨firstOther, firstKnown⟩ := (left_iff first).mp firstLeft
    obtain ⟨secondOther, secondKnown⟩ := (left_iff second).mp secondLeft
    refine Reachability.transGen_of_eliminated ?_ ?_ ?_ firstOther secondOther
      (complete first firstKnown second secondKnown path)
    · rintro ⟨-, -, loop | ⟨dependency, dependent, same, -⟩⟩
      · exact acyclic op (sound op mem op loop)
      · exact isTask dependency same
    · intro lower upper lowerOther upperOther linked
      refine .single ⟨(left_iff lower).mpr ⟨lowerOther, linked.1⟩,
        (left_iff upper).mpr ⟨upperOther, linked.2.1⟩, linked.2.2.imp_left fun old => ?_⟩
      exact (mem_opDependencies_replace lowerOther).mpr (.inl old)
    · intro lower upper lowerOther upperOther before after
      have dependency : lower ∈ maps.opDependencies op := before.2.2.resolve_right
        fun ⟨_, dependent, _, same, _⟩ => isTask dependent same
      have dependent : upper ∈ maps.opDependents op := (of_task upper after.2.1).mpr <|
        after.2.2.resolve_right fun ⟨dependency, _, same, _⟩ => isTask dependency same
      cases found : implied transitiveClosure lower upper with
      | false =>
        exact .single ⟨(left_iff lower).mpr ⟨lowerOther, before.1⟩,
          (left_iff upper).mpr ⟨upperOther, after.2.1⟩,
          .inl ((mem_opDependencies_replace lowerOther).mpr (.inr ⟨dependent, dependency, found⟩))⟩
      | true =>
        obtain ⟨first, second, rfl, rfl, closed⟩ := eq_barriers_of_implied found
        exact linked_of_direct barriers_left (follows second first closed)

theorem Faithful.removeTasks (acyclic : ∀ op, ¬ prog.Path op op)
    (follows : prog.Follows transitiveClosure) (order : List Op) :
    ∀ {maps : OpMaps}, prog.Faithful maps → order.Nodup →
      (∀ op ∈ order, (∀ position, op ≠ .barrier position) → op ∈ maps.keys) →
      ∃ after, removeNonBarrierTasksFromGraphWithTransitiveClosure order maps transitiveClosure =
          .ok after ∧ prog.Faithful after ∧
        ∀ op ∈ after.keys, op ∈ maps.keys ∧ (op ∈ order → ∃ position, op = .barrier position) := by
  induction order with
  | nil =>
    intro maps faithful _ _
    exact ⟨maps, rfl, faithful, fun op known => ⟨known, fun mem => by cases mem⟩⟩
  | cons op rest ih =>
    intro maps faithful nodup known
    obtain ⟨apart, nodupRest⟩ := nodup_cons.mp nodup
    cases op with
    | barrier position =>
      obtain ⟨after, run, left, keys⟩ := ih faithful nodupRest
        (forall_mem_cons.mp known).2
      refine ⟨after, run, left, fun other mem => ⟨(keys other mem).1, fun inOrder => ?_⟩⟩
      rcases mem_cons.mp inOrder with same | inRest
      · exact ⟨position, same⟩
      · exact (keys other mem).2 inRest
    | task list place =>
      have mem := known _ mem_cons_self fun _ same => by cases same
      have left := faithful.replaceTask acyclic follows mem fun _ same => by cases same
      have keys_iff : ∀ other, other ∈
          (replaceByEdges transitiveClosure maps (.task list place)).keys ↔
            other ≠ .task list place ∧ other ∈ maps.keys := fun other =>
        faithful.keys_nodup.mem_erase_iff
      obtain ⟨after, run, leftAfter, keys⟩ := ih left nodupRest
        fun other inRest isTask => (keys_iff other).mpr
          ⟨fun same => apart (same ▸ inRest), known other (mem_cons_of_mem _ inRest) isTask⟩
      refine ⟨after, ?_, leftAfter, fun other found => ?_⟩
      · refine (Run.ok_bind (show removeNonBarrierTask transitiveClosure maps (.task list place) =
          .ok (replaceByEdges transitiveClosure maps (.task list place)) from if_pos mem)
            _).trans
          run
      · obtain ⟨old, inOrder⟩ := keys other found
        obtain ⟨otherOp, knownBefore⟩ := (keys_iff other).mp old
        exact ⟨knownBefore, fun both => inOrder ((mem_cons.mp both).resolve_left otherOp)⟩

end

end Program

/-! ### Dependencies -/

namespace Program

variable {prog : Program}

/-! ### The graph of the barriers -/

def extendedRows (prog : Program) (maps : OpMaps) : Rows := fun barrier =>
  convertFromOpGraphToIndicesGraph maps barrier ∪
    prog.barrierDependenciesInIndexRepresentation barrier

theorem follows_closeAscending : prog.Follows
    (closeAscending prog.barrierDependenciesInIndexRepresentation prog.size) :=
  closes_closeAscending _ _

def OnlyBarriers (maps : OpMaps) : Prop := ∀ op ∈ maps.keys, ∃ position, op = .barrier position

theorem mem_positions {op : Op} {position : Nat} :
    position ∈ op.positions ↔ op = .barrier position := by
  cases op with
  | barrier other => simp [Op.positions, eq_comm]
  | task list place => simp [Op.positions]

theorem extendedRows_edge_iff {maps : OpMaps} {dependency dependent : Nat} :
    (prog.extendedRows maps).Edge dependency dependent ↔
      (.barrier dependent ∈ maps.keys ∧
        .barrier dependency ∈ maps.opDependencies (.barrier dependent)) ∨
      prog.Direct dependency dependent := by
  unfold Rows.Edge extendedRows convertFromOpGraphToIndicesGraph
  rw [Finset.mem_union]
  refine or_congr_left ?_
  split
  · rename_i known
    rw [Finset.mem_biUnion]
    simp only [mem_positions, exists_eq_right, known, true_and]
  · rename_i unknown
    simp only [Finset.notMem_empty, unknown, false_and]

section

variable {maps : OpMaps} {dependency dependent : Nat}

section

variable (faithful : prog.Faithful maps)
include faithful

section

variable (edge : (prog.extendedRows maps).Edge dependency dependent)
include edge

theorem Faithful.path_of_edge : prog.Path (.barrier dependency) (.barrier dependent) := by
  rcases extendedRows_edge_iff.mp edge with ⟨known, mem⟩ | direct
  · exact faithful.sound _ known _ mem
  · exact direct.path

theorem Faithful.lt_of_edge : dependency < prog.size ∧ dependent < prog.size := by
  rcases extendedRows_edge_iff.mp edge with ⟨known, mem⟩ | direct
  · exact ⟨(faithful.barriers_mem _).mp (faithful.deps_mem _ known _ mem),
      (faithful.barriers_mem _).mp known⟩
  · exact direct.lt

end

/-- The barriers are connected in the extended graph as in the whole one. -/
theorem Faithful.transGen_iff (only : OnlyBarriers maps) {first second : Nat}
    (firstLess : first < prog.size) (secondLess : second < prog.size) :
    TransGen (prog.extendedRows maps).Edge first second ↔
      prog.Path (.barrier first) (.barrier second) := by
  constructor
  · intro path
    induction path with
    | single edge => exact faithful.path_of_edge edge
    | tail _ edge ih => exact (ih (faithful.lt_of_edge edge).1).trans (faithful.path_of_edge edge)
  · intro path
    have linked := faithful.complete _ ((faithful.barriers_mem first).mpr firstLess) _
      ((faithful.barriers_mem second).mpr secondLess) path
    have reached : ∀ {op}, TransGen (prog.Linked maps) (.barrier first) op →
        ∀ position, op = .barrier position →
          TransGen (prog.extendedRows maps).Edge first position := by
      have edge_of_link : ∀ {dependency dependent : Nat},
          prog.Linked maps (.barrier dependency) (.barrier dependent) →
            (prog.extendedRows maps).Edge dependency dependent := by
        rintro dependency dependent ⟨-, known, mem | ⟨other, others, same, sames, direct⟩⟩
        · exact extendedRows_edge_iff.mpr (.inl ⟨known, mem⟩)
        · cases same
          cases sames
          exact extendedRows_edge_iff.mpr (.inr direct)
      intro op path
      induction path with
      | single link =>
        rintro position rfl
        exact .single (edge_of_link link)
      | tail _ link ih =>
        rintro position rfl
        obtain ⟨middle, rfl⟩ := only _ link.1
        exact (ih middle rfl).tail (edge_of_link link)
    exact reached linked second rfl

end

/-! ### The order of the barriers -/

theorem Faithful.acyclic (faithful : prog.Faithful maps) (only : OnlyBarriers maps)
    (acyclic : ∀ op, ¬ prog.Path op op) : Acyclic (prog.extendedRows maps).Edge := by
  intro node path
  obtain ⟨next, edge, -⟩ := TransGen.head'_iff.mp path
  have less := (faithful.lt_of_edge edge).1
  exact acyclic _ ((faithful.transGen_iff only less less).mp path)

section

variable (faithful : prog.Faithful maps) (only : OnlyBarriers maps)
  (acyclic : ∀ op, ¬ prog.Path op op)
include faithful only acyclic

theorem Faithful.optimized_iff {first second : Nat} (firstLess : first < prog.size)
    (secondLess : second < prog.size) :
    TransGen (optimizeDepsMap (prog.extendedRows maps) prog.size).Edge first second ↔
      prog.Path (.barrier first) (.barrier second) :=
  ((faithful.acyclic only acyclic).sameReachability
    (fun _ _ edge => (faithful.lt_of_edge edge).1) (bypassed_optimizeDepsMap _ _)
    (fun _ _ edge => optimizeDepsMap_subset _ _ _ edge) first second).trans
      (faithful.transGen_iff only firstLess secondLess)

theorem Faithful.rooted (nonempty : 0 < prog.size) (ancestors : ∀ barrier < prog.size - 1,
      prog.Path (.barrier barrier) (.barrier (prog.size - 1))) :
    TopologicalOrder.Rooted
      (sortedDependencies (optimizeDepsMap (prog.extendedRows maps) prog.size))
      (List.range prog.size) (prog.size - 1) := by
  have edge_iff : ∀ dependency dependent, dependency ∈ sortedDependencies
      (optimizeDepsMap (prog.extendedRows maps) prog.size) dependent ↔
        (optimizeDepsMap (prog.extendedRows maps) prog.size).Edge dependency dependent :=
    fun _ _ => Finset.mem_sort _
  have bounds : ∀ {dependency dependent},
      (optimizeDepsMap (prog.extendedRows maps) prog.size).Edge dependency dependent →
        dependency < prog.size ∧ dependent < prog.size := fun edge =>
    faithful.lt_of_edge (optimizeDepsMap_subset _ _ _ edge)
  have connected : ∀ {first second : Nat}, first < prog.size → second < prog.size →
      (TransGen (optimizeDepsMap (prog.extendedRows maps) prog.size).Edge first second ↔
        prog.Path (.barrier first) (.barrier second)) :=
    fun firstLess secondLess => faithful.optimized_iff only acyclic firstLess secondLess
  have cycleless : Acyclic (optimizeDepsMap (prog.extendedRows maps) prog.size).Edge := by
    intro node path
    obtain ⟨next, edge, -⟩ := TransGen.head'_iff.mp path
    exact acyclic _ ((connected (bounds edge).1 (bounds edge).1).mp path)
  refine ⟨nodup_range, mem_range.mpr (by omega), ?_, ?_, ?_, ?_, ?_⟩
  · intro node _ dep mem
    exact mem_range.mpr (bounds ((edge_iff dep node).mp mem)).1
  · exact fun node _ => Finset.sort_nodup _ _
  · intro node inside mem
    have below := mem_range.mp inside
    have edge := (edge_iff _ node).mp mem
    rcases Nat.lt_or_ge node (prog.size - 1) with earlier | last
    · have back := (connected below (bounds edge).1).mpr (ancestors node earlier)
      exact cycleless node (back.tail edge)
    · have same : node = prog.size - 1 := by omega
      rw [same] at edge
      exact cycleless _ (.single edge)
  · intro node inside
    have below := mem_range.mp inside
    rcases Nat.lt_or_ge node (prog.size - 1) with earlier | last
    · have path := (connected below (by omega)).mpr (ancestors node earlier)
      obtain ⟨next, edge, -⟩ := TransGen.head'_iff.mp path
      exact .inr ⟨next, mem_range.mpr (bounds edge).2, (edge_iff node next).mpr edge⟩
    · exact .inl (by omega)
  · refine Subrelation.wf (fun mem => (edge_iff _ _).mp mem) ?_
    exact cycleless.swap.wellFounded prog.size fun _ _ edge => (bounds edge).2

end

theorem inDegrees_eq (graph : Rows) (size dep : Nat) :
    inDegrees graph size dep = (TopologicalOrder.dependents (sortedDependencies graph)
      (List.range size) [] dep).length := by
  refine congrArg (fun list : List Nat => (list.length : Int)) ?_
  refine filter_congr fun node _ => ?_
  simp only [sortedDependencies, Finset.mem_sort, not_mem_nil, not_false_eq_true, and_true]

/-- The new order is the reverse of an order in which a barrier is visited before those that it
depends on. -/
theorem topologicalSort_ok {graph : Rows} {size : Nat}
    (rooted : TopologicalOrder.Rooted (sortedDependencies graph) (List.range size) (size - 1)) :
    ∃ order : List Nat, topologicalSort (size - 1) (sortedDependencies graph)
      (inDegrees graph size) size =
        some order.reverse ∧ order.Perm (List.range size) ∧
      (order.Pairwise fun first second => first ∉ sortedDependencies graph second) ∧
      order.head? = some (size - 1) := by
  obtain ⟨order, visited, perm, ordered, first⟩ := TopologicalOrder.visit_root rooted
  have degrees : inDegrees graph size = fun dep => ((TopologicalOrder.dependents
      (sortedDependencies graph) (range size) [] dep).length : Int) :=
    funext (inDegrees_eq graph size)
  rw [length_range, ← degrees] at visited
  have notEmpty : order ≠ [] := by
    rintro rfl
    cases first
  refine ⟨order, ?_, perm, ordered, first⟩
  unfold topologicalSort
  rw [visited]
  refine (congrArg (fun last => last.bind fun last =>
    some ((order.takeWhile (· ≠ last)).foldl (moveAfter · last) (range size)))
      (getLast?_eq_some_getLast notEmpty)).trans ?_
  exact congrArg some (moves_eq perm (getLast?_eq_some_getLast notEmpty))

end

/-! ### The pass -/

/-- What the checks of the pass admit: the count is that of the mapped inference, it is not above
the threshold, and the last barrier is a final one. -/
structure Admitted (prog : Program) : Prop where
  barrierCount : prog.size = prog.barrierCount
  barrierThreshold : prog.size ≤ prog.barrierThreshold
  isFinal : prog.isFinalBarrier.getLast? = some true

theorem Admitted.nonempty (admitted : prog.Admitted) : 0 < prog.size := by
  refine length_pos_iff.mpr fun empty => ?_
  have isFinal := admitted.isFinal
  rw [empty] at isFinal
  cases isFinal

/-- With the barriers brought in an order, its numbers and what they are. -/
theorem safeRunOnFunc_ok (admitted : prog.Admitted) (acyclic : ∀ op, ¬ prog.Path op op)
    (ancestors : ∀ barrier < prog.size - 1, prog.Path (.barrier barrier) (.barrier (prog.size - 1)))
    {hashOrder : List Op} (walked : hashOrder.Perm prog.ops) :
    ∃ (maps : OpMaps) (order : List Nat), prog.Faithful maps ∧ OnlyBarriers maps ∧
      prog.safeRunOnFunc hashOrder = .ok {
        dependencies := sortedDependencies
          (optimizeDepsMap (prog.extendedRows maps) prog.size)
        barriers := order.reverse
        barrierCount := order.reverse.length
        barrierTasks := order.reverse.head? } ∧
      order.Perm (List.range prog.size) ∧
      (order.Pairwise fun first second => first ∉ sortedDependencies
        (optimizeDepsMap (prog.extendedRows maps) prog.size) second) ∧
      order.head? = some (prog.size - 1) := by
  obtain ⟨maps, removed, faithful, keys⟩ := faithful_initial.removeTasks acyclic
    follows_closeAscending hashOrder (walked.nodup_iff.mpr nodup_ops)
    fun op mem _ => walked.mem_iff.mp mem
  have only : OnlyBarriers maps := fun op mem =>
    (keys op mem).2 (walked.mem_iff.mpr (keys op mem).1)
  have same : maps.keys.Perm ((range prog.size).map Op.barrier) := by
    refine (perm_ext_iff_of_nodup faithful.keys_nodup ?_).mpr fun op => ?_
    · exact nodup_range.map fun first second same => by injection same
    · rw [mem_map]
      constructor
      · intro mem
        obtain ⟨position, rfl⟩ := only op mem
        exact ⟨position, mem_range.mpr ((faithful.barriers_mem position).mp mem), rfl⟩
      · rintro ⟨position, inside, rfl⟩
        exact (faithful.barriers_mem position).mpr (mem_range.mp inside)
  have length : maps.keys.length = prog.size := by rw [same.length_eq, length_map, length_range]
  have noTask : ¬ (maps.keys.any fun op => op.positions = ∅) = true := by
    rw [any_eq_true]
    rintro ⟨op, mem, empty⟩
    obtain ⟨position, rfl⟩ := only op mem
    exact Finset.singleton_ne_empty position (of_decide_eq_true empty)
  obtain ⟨order, sorted, perm, ordered, first⟩ := topologicalSort_ok
    (faithful.rooted only acyclic admitted.nonempty ancestors)
  refine ⟨maps, order, faithful, only, ?_, perm, ordered, first⟩
  unfold safeRunOnFunc
  rw [if_neg (not_not.mpr admitted.barrierCount), if_neg admitted.barrierThreshold.not_gt]
  refine (Run.ok_bind removed _).trans ?_
  refine (if_neg noTask).trans ((if_neg (not_not.mpr admitted.isFinal)).trans
    ((if_neg (not_not.mpr length.symm)).trans ?_))
  rw [show (fun barrier => convertFromOpGraphToIndicesGraph maps barrier ∪
    prog.barrierDependenciesInIndexRepresentation barrier) = prog.extendedRows maps from rfl]
  dsimp only
  rw [sorted]

end Program

/-! ### The new numbers -/

section

variable {mapped : Mapped} {order : List Nat}

section

variable (reversed : mapped.barriers = order.reverse) (nodup : order.Nodup)
include reversed nodup

theorem Mapped.index_eq {place : Nat} (below : place < order.length) :
    mapped.index order[place] = order.length - 1 - place := by
  unfold Mapped.index
  rw [reversed]
  have last : order.length - 1 - place < order.reverse.length := by
    rw [length_reverse]
    omega
  have element : order.reverse[order.length - 1 - place] = order[place] := by
    rw [getElem_reverse]
    congr 1
    omega
  rw [← element]
  exact List.Nodup.idxOf_getElem (nodup_reverse.mpr nodup) _ last

theorem Mapped.index_lt
    (ordered : order.Pairwise fun first second => first ∉ mapped.dependencies second)
    {dependency barrier : Nat} (dependencyMember : dependency ∈ order) (mem : barrier ∈ order)
    (different : dependency ≠ barrier) (depends : dependency ∈ mapped.dependencies barrier) :
    mapped.index dependency < mapped.index barrier := by
  obtain ⟨late, lateLess, rfl⟩ := getElem_of_mem dependencyMember
  obtain ⟨early, earlyLess, rfl⟩ := getElem_of_mem mem
  have apart : early < late := by
    rcases Nat.lt_trichotomy early late with less | rfl | greater
    · exact less
    · exact absurd rfl different
    · exact absurd depends (pairwise_iff_getElem.mp ordered _ _ lateLess earlyLess greater)
  rw [Mapped.index_eq reversed nodup lateLess, Mapped.index_eq reversed nodup earlyLess]
  omega

end

end

/-- The pass keeps exactly the paths between barriers, and its numbers are a topological order of
all barriers that ends with the final one. -/
theorem Program.safeRunOnFunc_faithful (prog : Program) (admitted : prog.Admitted)
    (acyclic : ∀ op, ¬ prog.Path op op)
    (ancestors : ∀ barrier < prog.size - 1, prog.Path (.barrier barrier) (.barrier (prog.size - 1)))
    (hashOrder : List Op) (walked : hashOrder.Perm prog.ops) :
    ∃ mapped : Mapped, prog.safeRunOnFunc hashOrder = .ok mapped ∧
      (∀ first < prog.size, ∀ second < prog.size,
        TransGen (fun dependency barrier => dependency ∈ mapped.dependencies barrier) first second ↔
          prog.Path (.barrier first) (.barrier second)) ∧
      (∀ barrier, ∀ dependency ∈ mapped.dependencies barrier,
        mapped.index dependency < mapped.index barrier) ∧
      mapped.barriers.Perm (List.range prog.size) ∧
      mapped.index (prog.size - 1) = prog.size - 1 := by
  obtain ⟨maps, order, faithful, only, res, perm, ordered, first⟩ :=
    Program.safeRunOnFunc_ok admitted acyclic ancestors walked
  have nodup : order.Nodup := perm.nodup_iff.mpr nodup_range
  have edge_iff : ∀ {dependency barrier : Nat}, dependency ∈ sortedDependencies
      (optimizeDepsMap (prog.extendedRows maps) prog.size) barrier ↔
        (optimizeDepsMap (prog.extendedRows maps) prog.size).Edge dependency barrier :=
    Finset.mem_sort _
  refine ⟨_, res, ?_, ?_, ?_, ?_⟩
  · intro first firstLess second secondLess
    refine Iff.trans ?_ (faithful.optimized_iff only acyclic firstLess secondLess)
    exact ⟨TransGen.mono (fun _ _ => edge_iff.mp) _ _, TransGen.mono (fun _ _ => edge_iff.mpr) _ _⟩
  · intro barrier dependency depends
    have bounds := faithful.lt_of_edge (optimizeDepsMap_subset _ _ _ (edge_iff.mp depends))
    refine Mapped.index_lt rfl nodup ordered (perm.mem_iff.mpr (mem_range.mpr bounds.1))
      (perm.mem_iff.mpr (mem_range.mpr bounds.2)) ?_ depends
    rintro rfl
    exact acyclic _ ((faithful.optimized_iff only acyclic bounds.1 bounds.1).mp
      (.single (edge_iff.mp depends)))
  · exact order.reverse_perm.trans perm
  · have below : 0 < order.length := by
      rw [perm.length_eq, length_range]
      exact admitted.nonempty
    have head : order[0] = prog.size - 1 := by
      rw [head?_eq_getElem?, getElem?_eq_getElem below] at first
      exact Option.some.inj first
    rw [← head, Mapped.index_eq rfl nodup below, perm.length_eq, length_range]
    exact head.symm

/-! ### A program whose barriers are not in order -/

/-- A list of three tasks. The second task waits for barrier 1 and updates barrier 0. -/
def chainOfThree : Program where
  isFinalBarrier := [false, false, true]
  barrierCount := 3
  barrierThreshold := 64
  lists := [[⟨[], [1]⟩, ⟨[1], [0]⟩, ⟨[0], [2]⟩]]
  barriers_lt := by decide

/-- How many operations of the chain are before one. -/
def chainRank : Op → Nat
  | .barrier 0 => 3
  | .barrier 1 => 1
  | .barrier _ => 5
  | .task _ place => 2 * place

theorem chainRank_lt {first second : Op} (edge : chainOfThree.Edge first second) :
    chainRank first < chainRank second := by
  have mem := edge.mem_ops
  have finite : ∀ first ∈ chainOfThree.ops, ∀ second ∈ chainOfThree.ops,
      first ∈ chainOfThree.buildOpDepsAdjacentLists.opDependencies second →
        chainRank first < chainRank second := by decide
  exact finite first mem.1 second mem.2 ((Program.mem_opDependencies mem.2).mpr edge)

theorem chainOfThree_faithful : ∃ mapped : Mapped,
    chainOfThree.safeRunOnFunc chainOfThree.ops = .ok mapped ∧
      (∀ first < chainOfThree.size, ∀ second < chainOfThree.size,
        TransGen (fun dependency barrier => dependency ∈ mapped.dependencies barrier) first second ↔
          chainOfThree.Path (.barrier first) (.barrier second)) ∧
      (∀ barrier, ∀ dependency ∈ mapped.dependencies barrier,
        mapped.index dependency < mapped.index barrier) ∧
      mapped.barriers.Perm (List.range chainOfThree.size) ∧
      mapped.index (chainOfThree.size - 1) = chainOfThree.size - 1 := by
  refine Program.safeRunOnFunc_faithful chainOfThree ⟨rfl, by decide, rfl⟩ ?_ ?_
    chainOfThree.ops .rfl
  · intro op path
    have less : TransGen (· < ·) (chainRank op) (chainRank op) :=
      TransGen.lift chainRank (fun _ _ => chainRank_lt) _ _ path
    rw [transGen_eq_self] at less
    exact lt_irrefl _ less
  · have waits : ∀ {barrier : Nat} (place : Nat),
        barrier ∈ chainOfThree.waitBarriers (.task 0 place) →
          chainOfThree.Edge (.barrier barrier) (.task 0 place) := fun _ => .wait
    have last : chainOfThree.Path (.barrier 0) (.barrier 2) :=
      .tail (.single (waits 2 (by decide))) (.update (by decide))
    intro barrier below
    match barrier with
    | 0 => exact last
    | 1 =>
      exact .trans (.tail (.single (waits 1 (by decide)))
        (.update (by decide))) last
    | _ + 2 => exact absurd below (by simp [chainOfThree, Program.size])

end NpuPlugin.BarrierTopologicalMapping
