/-
This file treats systems that submit their tasks in groups, in a fixed order. A group is submitted
when the tasks that guard it are done, and a submitted task is done when the tasks it waits for are.
Where performing more actions never disables one, every run that can not go on has performed what
any run performs.
-/

import Mathlib.Data.List.Basic
import Mathlib.Order.WellFounded

namespace NpuPlugin.Submission

open List Nat

/-- A system with the tasks that are done and the number of groups that are submitted in a state. -/
structure System (State Task : Type) where
  Step : State → State → Prop
  Done : State → Task → Prop
  count : State → Nat
  tasks : List Task
  groups : Nat
  /-- The second task has to be done before the first one. -/
  WaitsFor : Task → Task → Prop
  /-- The task has to be done before a group is submitted. -/
  Guards : Nat → Task → Prop
  /-- The task is submitted together with the first groups. -/
  Submitted : Nat → Task → Prop

namespace System

variable {State Task : Type} (system : System State Task)

structure Submits (state after : State) : Prop where
  next : system.count state < system.groups
  guards : ∀ task, system.Guards (system.count state) task → system.Done state task
  count : system.count after = system.count state + 1
  done : ∀ task, system.Done after task ↔ system.Done state task

/-- A task can be done. -/
structure Ready (state : State) (task : Task) : Prop where
  mem : task ∈ system.tasks
  undone : ¬ system.Done state task
  submitted : system.Submitted (system.count state) task
  waits : ∀ earlier, system.WaitsFor task earlier → system.Done state earlier

/-- A task is done. -/
structure Performs (state : State) (task : Task) (after : State) : Prop where
  ready : system.Ready state task
  count : system.count after = system.count state
  done : ∀ other, system.Done after other ↔ system.Done state other ∨ other = task

/-- The steps are the submission of the next group and the tasks that can be done. -/
structure Lawful : Prop where
  step_cases : ∀ {state after}, system.Step state after →
    system.Submits state after ∨ ∃ task, system.Performs state task after
  submits : ∀ {state}, system.count state < system.groups →
    (∀ task, system.Guards (system.count state) task → system.Done state task) →
    ∃ after, system.Step state after
  performs : ∀ {state task}, system.Ready state task → ∃ after, system.Step state after
  submitted_succ : ∀ {count task}, system.Submitted count task → system.Submitted (count + 1) task
  submitted_all : ∀ {task}, task ∈ system.tasks → system.Submitted system.groups task
  guards_mem : ∀ {count task}, system.Guards count task → task ∈ system.tasks
  waits_mem : ∀ {task earlier}, system.WaitsFor task earlier → earlier ∈ system.tasks
  wellFounded : WellFounded fun earlier later => system.WaitsFor later earlier

/-- Nothing can be done any more, though tasks are left. -/
def Stuck (state : State) : Prop :=
  (∀ after, ¬ system.Step state after) ∧ ∃ task ∈ system.tasks, ¬ system.Done state task

/-- What the guards of a group wait for, directly or not, is submitted in front of the group. -/
def Covered : Prop :=
  ∀ group < system.groups, ∀ guard, system.Guards group guard → ∀ earlier,
    Relation.ReflTransGen system.WaitsFor guard earlier → system.Submitted group earlier

variable {system} {task : Task} {state : State}

theorem Lawful.submitted_le (lawful : system.Lawful) {first second : Nat} (le : first ≤ second)
    (submitted : system.Submitted first task) : system.Submitted second task := by
  induction le with
  | refl => exact submitted
  | step _ ih => exact lawful.submitted_succ ih

/-- Among what a task waits for that is not done there is a task that waits for nothing. -/
theorem Lawful.exists_ready (lawful : system.Lawful) (mem : task ∈ system.tasks)
    (left : ¬ system.Done state task)
    (submitted : ∀ earlier, Relation.ReflTransGen system.WaitsFor task earlier →
      system.Submitted (system.count state) earlier) : ∃ earlier, system.Ready state earlier := by
  induction task using lawful.wellFounded.induction with
  | _ task ih =>
    by_cases waits : ∀ earlier, system.WaitsFor task earlier → system.Done state earlier
    · exact ⟨task, mem, left, submitted task .refl, waits⟩
    · obtain ⟨earlier, waitsFor, undone⟩ : ∃ earlier, system.WaitsFor task earlier ∧
          ¬ system.Done state earlier := by
        by_contra none
        exact waits fun earlier waitsFor => by_contra fun undone => none ⟨earlier, waitsFor, undone⟩
      exact ih earlier waitsFor (lawful.waits_mem waitsFor) undone
        fun other reached => submitted other (.head waitsFor reached)

/-- A system whose groups are covered is never stuck. -/
theorem Covered.not_stuck (covered : system.Covered) (lawful : system.Lawful)
    (inside : system.count state ≤ system.groups) : ¬ system.Stuck state := by
  rintro ⟨none, task, mem, left⟩
  have notReady : ∀ task, ¬ system.Ready state task := fun task ready =>
    have ⟨after, step⟩ := lawful.performs ready
    none after step
  rcases lt_or_eq_of_le inside with next | last
  · by_cases guarded : ∀ guard, system.Guards (system.count state) guard → system.Done state guard
    · obtain ⟨after, step⟩ := lawful.submits next guarded
      exact none after step
    · refine guarded fun guard guards => by_contra fun undone => ?_
      obtain ⟨earlier, ready⟩ := lawful.exists_ready (lawful.guards_mem guards) undone
        (covered _ next guard guards)
      exact notReady earlier ready
  · have all : ∀ {other}, other ∈ system.tasks → system.Submitted (system.count state) other :=
      fun mem => last ▸ lawful.submitted_all mem
    obtain ⟨earlier, ready⟩ := lawful.exists_ready mem left fun earlier reached => by
      refine all ?_
      induction reached with
      | refl => exact mem
      | tail _ waitsFor _ => exact lawful.waits_mem waitsFor
    exact notReady earlier ready

/-- What holds in the states that are reached. -/
structure Reached (system : System State Task) (state : State) : Prop where
  inside : system.count state ≤ system.groups
  submitted : ∀ task, system.Done state task → system.Submitted (system.count state) task
  closed : ∀ task earlier, system.Done state task → system.WaitsFor task earlier →
    system.Done state earlier
  covered : ∀ group < system.count state, ∀ guard, system.Guards group guard → ∀ earlier,
    Relation.ReflTransGen system.WaitsFor guard earlier → system.Submitted group earlier

theorem Reached.done {state : State} (reached : system.Reached state) {task earlier : Task}
    (done : system.Done state task) (waits : Relation.ReflTransGen system.WaitsFor task earlier) :
    system.Done state earlier := by
  induction waits with
  | refl => exact done
  | tail _ waitsFor ih => exact reached.closed _ _ ih waitsFor

theorem Reached.step (lawful : system.Lawful) {state after : State}
    (reached : system.Reached state) (step : system.Step state after) : system.Reached after := by
  rcases lawful.step_cases step with submits | ⟨task, performs⟩
  · refine ⟨?_, ?_, ?_, ?_⟩
    · rw [submits.count]
      exact submits.next
    · intro task done
      rw [submits.count]
      exact lawful.submitted_succ (reached.submitted task ((submits.done task).mp done))
    · intro task earlier done waitsFor
      exact (submits.done earlier).mpr
        (reached.closed task earlier ((submits.done task).mp done) waitsFor)
    · intro group small guard guards earlier waits
      rw [submits.count] at small
      rcases Nat.lt_succ_iff_lt_or_eq.mp small with before | rfl
      · exact reached.covered group before guard guards earlier waits
      · exact reached.submitted earlier (reached.done (submits.guards guard guards) waits)
  · refine ⟨performs.count ▸ reached.inside, ?_, ?_, performs.count ▸ reached.covered⟩
    · intro other done
      rw [performs.count]
      rcases (performs.done other).mp done with before | rfl
      · exact reached.submitted other before
      · exact performs.ready.submitted
    · intro other earlier done waitsFor
      refine (performs.done earlier).mpr (.inl ?_)
      rcases (performs.done other).mp done with before | rfl
      · exact reached.closed other earlier before waitsFor
      · exact performs.ready.waits earlier waitsFor

theorem Reached.run (lawful : system.Lawful) {start state : State} (reached : system.Reached start)
    (run : Relation.ReflTransGen system.Step start state) : system.Reached state := by
  induction run with
  | refl => exact reached
  | tail _ step ih => exact ih.step lawful step

open Classical in
/-- The steps that are left at most. -/
noncomputable def remaining (system : System State Task) (state : State) : Nat :=
  (system.groups - system.count state) +
    (system.tasks.filter fun task => ¬ system.Done state task).length

theorem remaining_lt (lawful : system.Lawful) {after : State} (step : system.Step state after) :
    system.remaining after < system.remaining state := by
  classical
  unfold remaining
  rcases lawful.step_cases step with submits | ⟨task, performs⟩
  · have same : (system.tasks.filter fun task => ¬ system.Done after task) =
        system.tasks.filter fun task => ¬ system.Done state task :=
      filter_congr fun task _ => decide_eq_decide.mpr (not_congr (submits.done task))
    have next := submits.next
    rw [same, submits.count]
    omega
  · have fewer : (system.tasks.filter fun other => ¬ system.Done after other).length <
        (system.tasks.filter fun other => ¬ system.Done state other).length := by
      have sublist : (system.tasks.filter fun other => ¬ system.Done after other) =
          (system.tasks.filter fun other => ¬ system.Done state other).filter
            fun other => ¬ system.Done after other := by
        rw [filter_filter]
        refine filter_congr fun other _ => ?_
        rw [Bool.eq_iff_iff, Bool.and_eq_true, decide_eq_true_eq, decide_eq_true_eq]
        exact (and_iff_left_of_imp fun left done =>
          left ((performs.done other).mpr (.inl done))).symm
      rw [sublist]
      refine length_filter_lt_length_iff_exists.mpr ⟨task, ?_, ?_⟩
      · exact mem_filter.mpr ⟨performs.ready.mem, decide_eq_true performs.ready.undone⟩
      · rw [decide_eq_true_eq, not_not]
        exact (performs.done task).mpr (.inr rfl)
    rw [performs.count]
    exact Nat.add_lt_add_left fewer _

variable {start : State}

/-- A system that is never stuck comes to a state where all tasks are done. -/
theorem exists_final (lawful : system.Lawful)
    (free : ∀ state, Relation.ReflTransGen system.Step start state → ¬ system.Stuck state) :
    ∃ state, Relation.ReflTransGen system.Step start state ∧
      ∀ task ∈ system.tasks, system.Done state task := by
  have ends : ∀ (bound : Nat) (state : State), system.remaining state < bound →
      Relation.ReflTransGen system.Step start state →
      ∃ final, Relation.ReflTransGen system.Step start final ∧
        ∀ task ∈ system.tasks, system.Done final task := by
    intro bound
    induction bound with
    | zero => exact fun state less => absurd less (not_lt_zero _)
    | succ bound ih =>
      intro state less run
      by_cases all : ∀ task ∈ system.tasks, system.Done state task
      · exact ⟨state, run, all⟩
      · obtain ⟨task, mem, left⟩ : ∃ task ∈ system.tasks, ¬ system.Done state task := by
          by_contra none
          exact all fun task mem => by_contra fun left => none ⟨task, mem, left⟩
        obtain ⟨after, step⟩ : ∃ after, system.Step state after := by
          by_contra none
          exact free state run ⟨fun after step => none ⟨after, step⟩, task, mem, left⟩
        exact ih after
          ((remaining_lt lawful step).trans_le (le_of_lt_succ less)) (run.tail step)
  exact ends _ start (lt_succ_self _) .refl

/-- No state that is reached is stuck exactly when what the guards of each group wait for is
submitted in front of the group. -/
theorem never_stuck_iff (lawful : system.Lawful) (none : system.count start = 0)
    (untouched : ∀ task, ¬ system.Done start task) :
    (∀ state, Relation.ReflTransGen system.Step start state → ¬ system.Stuck state) ↔
      system.Covered := by
  have reached : system.Reached start := by
    refine ⟨none ▸ zero_le _, fun task done => absurd done (untouched task),
      fun task _ done => absurd done (untouched task), fun group small => ?_⟩
    rw [none] at small
    exact absurd small (not_lt_zero _)
  constructor
  · intro free group small guard guards earlier waits
    obtain ⟨final, run, all⟩ := exists_final lawful free
    have last := reached.run lawful run
    rcases lt_or_ge group (system.count final) with before | behind
    · exact last.covered group before guard guards earlier waits
    · exact lawful.submitted_le behind (last.submitted earlier
        (last.done (all guard (lawful.guards_mem guards)) waits))
  · intro covered state run
    exact covered.not_stuck lawful (reached.run lawful run).inside

end System

end NpuPlugin.Submission

namespace NpuPlugin

/-- Which action is enabled once a set of actions has been performed. -/
structure MonotoneSystem (Action : Type) where
  Enabled : Set Action → Action → Prop
  monotone : ∀ {fewer more : Set Action} {action : Action}, fewer ⊆ more →
    Enabled fewer action → Enabled more action

namespace MonotoneSystem

variable {Action : Type} (system : MonotoneSystem Action)

/-- The sets of actions performed by a run. -/
inductive Performed : Set Action → Prop
  | start : Performed ∅
  | step {performed : Set Action} {action : Action} :
      Performed performed → system.Enabled performed action → Performed (insert action performed)

/-- A run that has performed these actions can not perform another one. -/
def Complete (performed : Set Action) : Prop :=
  ∀ action, system.Enabled performed action → action ∈ performed

variable {system}

/-- A run that can not go on has performed all that any run performs. -/
theorem Performed.subset {performed complete : Set Action} (run : system.Performed performed)
    (ended : system.Complete complete) : performed ⊆ complete := by
  induction run with
  | start => exact Set.empty_subset complete
  | step _ enabled ih =>
    exact Set.insert_subset (ended _ (system.monotone ih enabled))
      ih

end MonotoneSystem

end NpuPlugin
