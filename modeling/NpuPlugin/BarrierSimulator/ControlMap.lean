/-
This file proves what the barrier control map holds: one pass over the rows in the order of the ids
closes them when no barrier depends on one with a higher id.
-/

import Mathlib.Data.List.GetD
import Mathlib.Data.List.Induction
import NpuPlugin.BarrierSimulator.Model

namespace NpuPlugin.BarrierSimulator

open List Relation

def Marked (rows : List (List Bool)) (vid dep : Nat) : Prop :=
  (rows.getD vid []).getD dep false = true

def TaskOp.dmaQueue (taskOp : TaskOp) : Option Int :=
  match taskOp.executor with
  | .DMA_NN port _ channel => some (getDMAQueueIdEncoding port channel)
  | _ => none

/-- The last task on a DMA queue. -/
def lastOn (tasks : List TaskOp) (queue : Int) : Option TaskOp :=
  tasks.reverse.find? fun taskOp => taskOp.dmaQueue == some queue

/-- The task waits for the barrier, or the task before it on its DMA queue does. -/
def DependsOn (before : List TaskOp) (taskOp : TaskOp) (dep : Nat) : Prop :=
  dep ∈ taskOp.waitBarriers ∨ ∃ queue lastOp, taskOp.dmaQueue = some queue ∧
    lastOn before queue = some lastOp ∧ dep ∈ lastOp.waitBarriers

/-- A task that updates the second barrier depends on the first one. -/
def Controls (tasks : List TaskOp) (dep vid : Nat) : Prop :=
  ∃ before taskOp after, tasks = before ++ taskOp :: after ∧ vid ∈ taskOp.updateBarriers ∧
    DependsOn before taskOp dep

/-! ### The direct dependencies -/

/-- A bit vector for every barrier, with a bit for every barrier. -/
def Square (count : Nat) (rows : List (List Bool)) : Prop :=
  rows.length = count ∧ ∀ row ∈ rows, row.length = count

variable {count : Nat} {rows : List (List Bool)} {vid dep : Nat}

theorem Square.length_row (square : Square count rows) (inside : vid < count) :
    (rows.getD vid []).length = count := by
  have bound : vid < rows.length := by rwa [square.1]
  rw [getD_eq_getElem _ _ bound]
  exact square.2 _ (getElem_mem bound)

theorem Square.modify (square : Square count rows) (vid : Nat) {change : List Bool → List Bool}
    (kept : ∀ row, row.length = count → (change row).length = count) :
    Square count (rows.modify vid change) := by
  refine ⟨(length_modify ..).trans square.1, fun row mem => ?_⟩
  obtain ⟨idx, inside, rfl⟩ := getElem_of_mem mem
  rw [length_modify] at inside
  have old := square.2 _ (getElem_mem inside)
  rw [getElem_modify]
  split
  · exact kept _ old
  · exact old

theorem getD_modify (rows : List (List Bool)) (vid other : Nat) (change : List Bool → List Bool) :
    (rows.modify vid change).getD other [] =
      if vid = other ∧ other < rows.length then change (rows.getD other []) else
        rows.getD other [] := by
  rw [getD_eq_getElem?_getD, getD_eq_getElem?_getD, getElem?_modify]
  by_cases inside : other < rows.length
  · rw [getElem?_eq_getElem inside]
    by_cases same : vid = other
    · simp [same, inside]
    · simp [same]
  · simp [inside]

theorem setBits_spec (deps : List Nat) (row : List Bool) :
    (deps.foldl setBit row).length = row.length ∧ ∀ dep < row.length,
      ((deps.foldl setBit row).getD dep false = true ↔ row.getD dep false = true ∨ dep ∈ deps) := by
  induction deps generalizing row with
  | nil => simp
  | cons other rest ih =>
    obtain ⟨length, bits⟩ := ih (setBit row other)
    have same : (setBit row other).length = row.length := length_set
    refine ⟨length.trans same, fun dep inside => ?_⟩
    rw [foldl_cons, bits dep (by rwa [same]), mem_cons, ← or_assoc]
    refine or_congr_left ?_
    rw [setBit, getD_eq_getElem?_getD, getElem?_set]
    by_cases equal : other = dep
    · simp [equal, inside]
    · simp [equal, Ne.symm equal]

/-- The rows of the barriers that a task updates get the bits of others. -/
def markRows (rows : List (List Bool)) (updates deps : List Nat) : List (List Bool) :=
  updates.foldl (fun rows vid => rows.modify vid fun row => deps.foldl setBit row) rows

theorem markRows_spec (updates deps : List Nat) (square : Square count rows) :
    Square count (markRows rows updates deps) ∧ ∀ vid < count, ∀ dep < count,
      (Marked (markRows rows updates deps) vid dep ↔
        Marked rows vid dep ∨ vid ∈ updates ∧ dep ∈ deps) := by
  induction updates generalizing rows with
  | nil => simp [markRows, square]
  | cons other rest ih =>
    obtain ⟨later, marks⟩ := ih (square.modify other fun row length =>
      (setBits_spec deps row).1.trans length)
    refine ⟨later, fun vid inside dep within => (marks vid inside dep within).trans ?_⟩
    rw [Marked, Marked, getD_modify, square.1]
    by_cases same : other = vid
    · rw [if_pos ⟨same, inside⟩, (setBits_spec deps _).2 dep (by rwa [square.length_row inside]),
        same]
      simp only [mem_cons, true_or, true_and]
      tauto
    · rw [if_neg (fun both => same both.1)]
      simp [Ne.symm same]

theorem Square.lt_of_marked (square : Square count rows) (marked : Marked rows vid dep) :
    vid < count ∧ dep < count := by
  unfold Marked at marked
  by_cases inside : vid < count
  · refine ⟨inside, ?_⟩
    by_contra outside
    rw [getD_eq_default _ _ (by rw [square.length_row inside]; omega)] at marked
    cases marked
  · rw [getD_eq_default rows _ (by rw [square.1]; omega)] at marked
    cases marked

/-- One task of `directControlMap`. -/
def markTask (state : List (List Bool) × LastOpMap) (taskOp : TaskOp) :
    List (List Bool) × LastOpMap :=
  (markRows state.1 taskOp.updateBarriers (dependedBarriers state.2 taskOp).1,
    (dependedBarriers state.2 taskOp).2)

theorem controls_concat {tasks : List TaskOp} {taskOp : TaskOp} :
    Controls (tasks ++ [taskOp]) dep vid ↔ Controls tasks dep vid ∨
      vid ∈ taskOp.updateBarriers ∧ DependsOn tasks taskOp dep := by
  constructor
  · rintro ⟨before, found, after, split, updates, depends⟩
    rcases eq_nil_or_concat' after with rfl | ⟨rest, last, rfl⟩
    · obtain ⟨rfl, same⟩ := append_inj' split rfl
      rw [singleton_inj.mp same]
      exact .inr ⟨updates, depends⟩
    · rw [← cons_append, ← append_assoc] at split
      obtain ⟨rfl, -⟩ := append_inj' split rfl
      exact .inl ⟨before, found, rest, rfl, updates, depends⟩
  · rintro (⟨before, found, after, rfl, updates, depends⟩ | ⟨updates, depends⟩)
    · exact ⟨before, found, after ++ [taskOp], by simp, updates, depends⟩
    · exact ⟨tasks, taskOp, [], rfl, updates, depends⟩

theorem Controls.declared {tasks : List TaskOp} (controls : Controls tasks dep vid)
    (declared : ∀ task ∈ tasks, ∀ vid ∈ task.waitBarriers ++ task.updateBarriers, vid < count) :
    vid < count ∧ dep < count := by
  obtain ⟨before, taskOp, after, rfl, updates, waits | ⟨queue, lastOp, -, last, waits⟩⟩ := controls
  · exact ⟨declared taskOp (by simp) vid (mem_append_right _ updates),
      declared taskOp (by simp) dep (mem_append_left _ waits)⟩
  · have mem := mem_reverse.mp (mem_of_find?_eq_some last)
    exact ⟨declared taskOp (by simp) vid (mem_append_right _ updates),
      declared lastOp (mem_append_left _ mem) dep (mem_append_left _ waits)⟩

theorem dependedBarriers_spec {lastOps : LastOpMap} {tasks : List TaskOp}
    (known : ∀ queue, lastOps.lookup queue = lastOn tasks queue) (taskOp : TaskOp) :
    (∀ queue, (dependedBarriers lastOps taskOp).2.lookup queue = lastOn (tasks ++ [taskOp]) queue) ∧
      ∀ dep, dep ∈ (dependedBarriers lastOps taskOp).1 ↔ DependsOn tasks taskOp dep := by
  have last : ∀ queue, lastOn (tasks ++ [taskOp]) queue =
      if taskOp.dmaQueue = some queue then some taskOp else lastOps.lookup queue := by
    intro queue
    rw [lastOn, reverse_append, reverse_singleton, singleton_append, find?_cons, known]
    by_cases same : taskOp.dmaQueue = some queue
    · simp [same]
    · rw [beq_eq_false_iff_ne.mpr same, if_neg same, lastOn]
  unfold dependedBarriers
  split
  · next port clusters channel kind =>
    have queue : taskOp.dmaQueue = some (getDMAQueueIdEncoding port channel) := by
      rw [TaskOp.dmaQueue, kind]
    refine ⟨fun other => ?_, fun dep => ?_⟩
    · rw [last, lookup_cons, queue]
      by_cases same : other = getDMAQueueIdEncoding port channel
      · simp [same]
      · rw [beq_eq_false_iff_ne.mpr same, if_neg fun equal => same (Option.some.inj equal).symm]
    · simp only [known, DependsOn, queue]
      cases found : lastOn tasks (getDMAQueueIdEncoding port channel) with
      | none => simp [found]
      | some lastOp => simp [found, or_comm]
  · next other =>
    have queue : taskOp.dmaQueue = none := by
      unfold TaskOp.dmaQueue
      split
      · next port clusters channel kind => exact absurd kind (other port clusters channel)
      · rfl
    exact ⟨fun other => by rw [last, queue, if_neg (by simp)],
      fun dep => by simp [DependsOn, queue]⟩

theorem directControlMap_spec {count : Nat} {tasks : List TaskOp}
    (declared : ∀ task ∈ tasks, ∀ vid ∈ task.waitBarriers ++ task.updateBarriers, vid < count) :
    Square count (directControlMap (replicate count (replicate count false)) tasks) ∧
      ∀ vid dep, Marked (directControlMap (replicate count (replicate count false)) tasks) vid dep ↔
        Controls tasks dep vid := by
  have walk : ∀ tasks : List TaskOp,
      (∀ task ∈ tasks, ∀ vid ∈ task.waitBarriers ++ task.updateBarriers, vid < count) →
      let state := tasks.foldl markTask (replicate count (replicate count false), [])
      Square count state.1 ∧ (∀ queue, state.2.lookup queue = lastOn tasks queue) ∧
        ∀ vid dep, Marked state.1 vid dep ↔ Controls tasks dep vid := by
    intro tasks
    induction tasks using reverseRecOn with
    | nil =>
      intro _
      have square : Square count (replicate count (replicate count false)) :=
        ⟨length_replicate, fun row mem => by rw [eq_of_mem_replicate mem, length_replicate]⟩
      refine ⟨square, fun _ => rfl, fun vid dep => ⟨fun marked => ?_, fun controls => ?_⟩⟩
      · obtain ⟨inside, within⟩ := square.lt_of_marked marked
        rw [foldl_nil, Marked, getD_replicate _ inside, getD_replicate _ within] at marked
        cases marked
      · obtain ⟨before, _, _, split, -⟩ := controls
        simp at split
    | append_singleton tasks taskOp ih =>
      intro declared
      obtain ⟨square, known, marks⟩ := ih (forall_mem_append.mp declared).1
      obtain ⟨last, depends⟩ := dependedBarriers_spec known taskOp
      obtain ⟨later, changed⟩ := markRows_spec taskOp.updateBarriers (dependedBarriers
        (tasks.foldl markTask (replicate count (replicate count false), [])).2 taskOp).1 square
      rw [foldl_append, foldl_cons, foldl_nil]
      refine ⟨later, last, fun vid dep => ?_⟩
      have same : vid < count → dep < count → (Marked (markTask (tasks.foldl markTask
          (replicate count (replicate count false), [])) taskOp).1 vid dep ↔
            Controls (tasks ++ [taskOp]) dep vid) := fun inside within => by
        rw [controls_concat, ← marks, ← depends]
        exact changed vid inside dep within
      exact ⟨fun marked => (same (later.lt_of_marked marked).1
        (later.lt_of_marked marked).2).mp marked, fun controls =>
          (same (controls.declared declared).1 (controls.declared declared).2).mpr controls⟩
  obtain ⟨square, -, marks⟩ := walk tasks declared
  exact ⟨square, marks⟩

/-! ### Closing the rows -/

section

variable {current : Nat} (square : Square count rows) (inside : current < count)
include square inside

theorem marked_union {mid : Nat} (within : mid < count) (dep : Nat) :
    Marked (rows.modify current fun row => unionBits row (rows.getD mid [])) current dep ↔
      Marked rows current dep ∨ Marked rows mid dep := by
  have lengths := (square.length_row inside).trans (square.length_row within).symm
  rw [Marked, getD_modify, if_pos ⟨rfl, inside.trans_eq square.1.symm⟩, Marked, Marked]
  generalize rows.getD current [] = first at lengths ⊢
  generalize rows.getD mid [] = second at lengths ⊢
  rw [unionBits, getD_eq_getElem?_getD, getElem?_zipWith, getD_eq_getElem?_getD,
    getD_eq_getElem?_getD]
  by_cases bound : dep < first.length
  · simp [bound, bound.trans_eq lengths]
  · simp [bound, show ¬ dep < second.length from lengths ▸ bound]

/-- What the pass over the bits of a row has done before a bit. -/
structure Closing (count current visited : Nat) (rows after : List (List Bool)) : Prop where
  square : Square count after
  others : ∀ vid, current ≠ vid → after.getD vid [] = rows.getD vid []
  kept : ∀ dep, Marked rows current dep → Marked after current dep
  joined : ∀ mid < visited, current ≠ mid → Marked rows current mid →
    ∀ dep, Marked rows mid dep → Marked after current dep
  sound : ∀ Holds : Nat → Nat → Prop, (∀ vid dep, Marked rows vid dep → TransGen Holds dep vid) →
    ∀ vid dep, Marked after vid dep → TransGen Holds dep vid

theorem closeRow_closing : Closing count current count rows (closeRow rows current) := by
  unfold closeRow
  rw [square.1]
  suffices loop : ∀ visited ≤ count, Closing count current visited rows ((List.range visited).foldl
      (fun rows curDepInd => if (rows.getD current []).getD curDepInd false then
        rows.modify current fun row => unionBits row (rows.getD curDepInd []) else rows) rows) from
    loop count le_rfl
  intro visited bound
  induction visited with
  | zero =>
    exact ⟨square, fun _ _ => rfl, fun _ => id, fun mid before => absurd before (Nat.not_lt_zero _),
      fun _ holds => holds⟩
  | succ visited ih =>
    have closing := ih (by omega)
    rw [range_succ, foldl_append, foldl_cons, foldl_nil]
    generalize (List.range visited).foldl _ rows = middle at closing ⊢
    split
    · next marked =>
      have union := marked_union closing.square inside bound
      refine ⟨closing.square.modify _ fun row length => ?_, fun vid other => ?_, fun dep old =>
        (union dep).mpr (.inl (closing.kept dep old)), fun mid before other old dep mark =>
          (union dep).mpr ?_, fun Holds holds vid dep mark => ?_⟩
      · rw [unionBits, length_zipWith, length, closing.square.length_row bound, Nat.min_self]
      · rw [getD_modify, if_neg fun both => other both.1, closing.others vid other]
      · rcases Nat.lt_succ_iff_lt_or_eq.mp before with earlier | rfl
        · exact .inl (closing.joined mid earlier other old dep mark)
        · rw [Marked, ← closing.others mid other] at mark
          exact .inr mark
      · by_cases same : current = vid
        · subst same
          rcases (union dep).mp mark with old | new
          · exact closing.sound Holds holds _ _ old
          · exact (closing.sound Holds holds _ _ new).trans (closing.sound Holds holds _ _ marked)
        · rw [Marked, getD_modify, if_neg fun both => same both.1] at mark
          exact closing.sound Holds holds _ _ mark
    · next unmarked =>
      refine ⟨closing.square, closing.others, closing.kept, fun mid before other marked => ?_,
        closing.sound⟩
      rcases Nat.lt_succ_iff_lt_or_eq.mp before with earlier | rfl
      · exact closing.joined mid earlier other marked
      · exact absurd (closing.kept _ marked) unmarked

end

/-- What the pass over the rows has done before a row. -/
structure Closed (count current : Nat) (Direct : Nat → Nat → Prop) (rows : List (List Bool)) :
    Prop where
  square : Square count rows
  direct : ∀ vid dep, Direct dep vid → Marked rows vid dep
  sound : ∀ vid dep, Marked rows vid dep → TransGen Direct dep vid
  closed : ∀ vid < current, ∀ mid < vid, Direct mid vid → ∀ dep, Marked rows mid dep →
    Marked rows vid dep

theorem Closed.step {Direct : Nat → Nat → Prop} {current : Nat}
    (before : Closed count current Direct rows) (inside : current < count) :
    Closed count (current + 1) Direct (closeRow rows current) := by
  have closing := closeRow_closing before.square inside
  have same : ∀ {vid}, current ≠ vid → ∀ dep,
      (Marked (closeRow rows current) vid dep ↔ Marked rows vid dep) := fun other dep => by
    rw [Marked, Marked, closing.others _ other]
  refine ⟨closing.square, fun vid dep direct => ?_, closing.sound Direct before.sound,
    fun vid done mid less direct dep marked => ?_⟩
  · have old := before.direct vid dep direct
    by_cases here : current = vid
    · exact here ▸ closing.kept dep (here ▸ old)
    · exact (same here dep).mpr old
  · rw [same (by omega)] at marked
    rcases Nat.lt_succ_iff_lt_or_eq.mp done with earlier | rfl
    · exact (same (by omega) dep).mpr (before.closed vid earlier mid less direct dep marked)
    · exact closing.joined mid (by omega) (by omega) (before.direct _ _ direct) dep marked

/-- Tasks that use the barriers in the order 3, 1, 2, 0. -/
def backwardsTasks : List TaskOp :=
  [⟨.SHAVE_ACT, [3], [1]⟩, ⟨.SHAVE_ACT, [1], [2]⟩, ⟨.SHAVE_ACT, [2], [0]⟩]

theorem backwardsTasks_declared : ∀ task ∈ backwardsTasks,
    ∀ vid ∈ task.waitBarriers ++ task.updateBarriers, vid < 4 := by
  decide

def backwards : Program where
  dmaPortCount := 1
  independentDmaQueues := 1
  availableBarriers := 4
  barriers := .declared 4
  tasks := backwardsTasks
  declared := backwardsTasks_declared

end NpuPlugin.BarrierSimulator
