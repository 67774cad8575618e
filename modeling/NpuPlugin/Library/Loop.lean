/-
This file gives the rules to reason about functions that may exit early and about loops whose body
may go on, leave the loop, or exit the function around it: what they preserve, facts that hold of a
state because they hold of a later one, two functions that run in step, and the number of turns. It
ends with lists that run alongside each other, functions with a cache, and loops over a table.
-/

import Mathlib.Data.List.Forall2

namespace NpuPlugin

open Except List Nat

/-! ### Functions that may exit -/

namespace Run

variable {State Exit Other OtherExit : Type}

/-- What holds before the function holds after it. -/
def Preserves (Holds : State → Prop) (run : State → Except Exit State) : Prop :=
  ∀ state after, Holds state → run state = .ok after → Holds after

/-- What holds after the function held before it. -/
def Reflects (Later : State → Prop) (run : State → Except Exit State) : Prop :=
  ∀ state after, Later after → run state = .ok after → Later state

/-- Whenever the leading function succeeds, with a later fact known of its result, the
following one succeeds on related states. -/
def InStep (Related : State → Other → Prop) (Later : State → Prop)
    (lead : State → Except Exit State) (follow : Other → Except OtherExit Other) : Prop :=
  ∀ state after other, Later after → Related state other → lead state = .ok after →
    ∃ following, follow other = .ok following ∧ Related after following

/-- A function whose result passes a check succeeds. -/
theorem exists_ok {Value : Type} (result : Except Exit Value) (check : Value → Bool)
    (passed : result.toOption.any check = true) :
    ∃ value, result = .ok value ∧ check value = true := by
  cases result with
  | error exited => cases passed
  | ok value => exact ⟨value, rfl, passed⟩

variable {First Second : Type} {first : Except Exit First} {exited : Exit} {Later : State → Prop}
  {second : First → Except Exit Second}

theorem bind_ok {after : Second}
    (result : (first >>= second) = .ok after) :
    ∃ middle, first = .ok middle ∧ second middle = .ok after := by
  cases first with
  | error exited => cases result
  | ok middle => exact ⟨middle, rfl, result⟩

theorem ok_bind {middle : First} (result : first = .ok middle)
    (second : First → Except Exit Second) : (first >>= second) = second middle := by
  rw [result]
  rfl

theorem error_bind (result : first = .error exited) (second : First → Except Exit Second) :
    (first >>= second) = .error exited := by
  rw [result]
  rfl

theorem bind_error
    (result : (first >>= second) = .error exited) :
    first = .error exited ∨ ∃ middle, first = .ok middle ∧ second middle = .error exited := by
  cases first with
  | error found =>
    cases result
    exact .inl rfl
  | ok middle => exact .inr ⟨middle, rfl, result⟩

variable {second first : State → Except Exit State}

theorem Preserves.bind {Holds : State → Prop} (one : Preserves Holds first)
    (two : Preserves Holds second) : Preserves Holds fun state => first state >>= second := by
  intro state after holds result
  obtain ⟨middle, ran, rest⟩ := bind_ok result
  exact two middle after (one state middle holds ran) rest

theorem Reflects.bind (one : Reflects Later first)
    (two : Reflects Later second) : Reflects Later fun state => first state >>= second := by
  intro state after later result
  obtain ⟨middle, ran, rest⟩ := bind_ok result
  exact one state middle (two middle after later rest) ran

variable {Related : State → Other → Prop}

theorem InStep.bind {firstOther secondOther : Other → Except OtherExit Other}
    (one : InStep Related Later first firstOther) (two : InStep Related Later second secondOther)
    (reflects : Reflects Later second) :
    InStep Related Later (fun state => first state >>= second)
      (fun other => firstOther other >>= secondOther) := by
  intro state after other later related result
  obtain ⟨middle, ran, rest⟩ := bind_ok result
  obtain ⟨between, followed, kept⟩ :=
    one state middle other (reflects middle after later rest) related ran
  obtain ⟨last, ended, final⟩ := two middle after between later kept rest
  exact ⟨last, by simp only [followed]; exact ended, final⟩

variable {Item Value : Type} {run : State → Item → Except Exit State} {start : State} {item : Item}
  (Holds : State → Prop) (items : List Item)

theorem mapM_ok {run : Item → Except Exit Value} {value : Item → Value}
    (each : ∀ item ∈ items, run item = .ok (value item)) :
    items.mapM run = .ok (items.map value) := by
  induction items with
  | nil => rfl
  | cons item rest ih =>
    rw [mapM_cons]
    exact (ok_bind (each item mem_cons_self) _).trans
      (ok_bind (ih (forall_mem_cons.mp each).2) _)

/-- A function that runs on every item has a result for each of them. -/
theorem mapM_ok_iff {run : Item → Except Exit Value} {items : List Item} {values : List Value} :
    items.mapM run = .ok values ↔ values.length = items.length ∧
      ∀ (idx : Nat) item, items[idx]? = some item →
        ∃ value, values[idx]? = some value ∧ run item = .ok value := by
  induction items generalizing values with
  | nil =>
    constructor
    · rintro ⟨⟩
      exact ⟨rfl, fun idx item found => absurd found nofun⟩
    · rintro ⟨length, _⟩
      rw [length_eq_zero_iff.mp length]
      rfl
  | cons item rest ih =>
    rw [mapM_cons]
    constructor
    · intro result
      obtain ⟨first, ran, later⟩ := bind_ok result
      obtain ⟨others, ranOthers, same⟩ := bind_ok later
      cases same
      obtain ⟨length, each⟩ := ih.mp ranOthers
      refine ⟨congrArg (· + 1) length, fun idx other found => ?_⟩
      cases idx with
      | zero =>
        cases found
        exact ⟨first, rfl, ran⟩
      | succ idx => exact each idx other found
    · rintro ⟨length, each⟩
      obtain ⟨first, found, ran⟩ := each 0 item rfl
      cases values with
      | nil => cases length
      | cons value others =>
        cases found
        exact (ok_bind ran _).trans (ok_bind (ih.mpr
          ⟨succ.inj length, fun idx other inRest => each (idx + 1) other inRest⟩) _)

theorem Preserves.foldlM {Holds : State → Prop}
    (each : ∀ item ∈ items, Preserves Holds fun state => run state item) :
    Preserves Holds fun state => items.foldlM run state := by
  induction items with
  | nil =>
    intro state after holds result
    cases result
    exact holds
  | cons item rest ih =>
    intro state after holds result
    simp only [foldlM_cons] at result
    exact (each item mem_cons_self).bind (ih (forall_mem_cons.mp each).2) state after holds result

theorem Reflects.foldlM (each : ∀ item ∈ items, Reflects Later fun state => run state item) :
    Reflects Later fun state => items.foldlM run state := by
  induction items with
  | nil =>
    intro state after later result
    cases result
    exact later
  | cons item rest ih =>
    intro state after later result
    simp only [foldlM_cons] at result
    exact (each item mem_cons_self).bind (ih (forall_mem_cons.mp each).2) state after later result

theorem InStep.foldlM {follow : Other → Item → Except OtherExit Other} (each : ∀ item ∈ items,
      InStep Related Later (fun state => run state item) fun other => follow other item)
    (reflects : ∀ item ∈ items, Reflects Later fun state => run state item) :
    InStep Related Later (fun state => items.foldlM run state)
      fun other => items.foldlM follow other := by
  induction items with
  | nil =>
    intro state after other _ related result
    cases result
    exact ⟨other, rfl, related⟩
  | cons item rest ih =>
    intro state after other later related result
    simp only [foldlM_cons] at result
    obtain ⟨last, ran, kept⟩ := ((each item mem_cons_self).bind
      (ih (forall_mem_cons.mp each).2
        (forall_mem_cons.mp reflects).2)
      (Reflects.foldlM rest (forall_mem_cons.mp reflects).2))
      state after other later related result
    exact ⟨last, by simp only [foldlM_cons]; exact ran, kept⟩

/-- A fold that leaves no trace has changed nothing at any item. -/
theorem foldlM_idle (Moved : State → Prop) (Idle : Item → State → Prop) (items : List Item)
    (stays : ∀ item, Preserves Moved fun state => run state item)
    (idleStep : ∀ item state after, run state item = .ok after → ¬ Moved after →
      ¬ Moved state → after = state ∧ Idle item state) (state final : State)
    (result : items.foldlM run state = .ok final) (idle : ¬ Moved final) :
    final = state ∧ ∀ item ∈ items, Idle item state := by
  induction items generalizing state with
  | nil =>
    cases result
    exact ⟨rfl, forall_mem_nil _⟩
  | cons item rest ih =>
    rw [foldlM_cons] at result
    obtain ⟨middle, first, later⟩ := bind_ok result
    obtain ⟨same, others⟩ := ih middle later
    rw [same] at idle
    obtain ⟨kept, here⟩ := idleStep item state middle first idle
      fun moved => idle (stays item state middle moved first)
    refine ⟨same.trans kept, fun other mem => ?_⟩
    rcases mem_cons.mp mem with head | tail
    · rw [head]
      exact here
    · exact kept ▸ others other tail

/-- A fold that exits does so at one of its items, in a state that the items before it
preserve. -/
theorem foldlM_error (each : ∀ item ∈ items, Preserves Holds fun state => run state item)
    (state : State) (exited : Exit) (holds : Holds state)
    (result : items.foldlM run state = .error exited) :
    ∃ item ∈ items, ∃ last, Holds last ∧ run last item = .error exited := by
  induction items generalizing state with
  | nil => cases result
  | cons item rest ih =>
    rw [foldlM_cons] at result
    cases outcome : run state item with
    | error found =>
      rw [outcome] at result
      cases result
      exact ⟨item, mem_cons_self, state, holds, outcome⟩
    | ok middle =>
      rw [outcome] at result
      obtain ⟨other, mem, last, kept, failed⟩ := ih
        (forall_mem_cons.mp each).2 middle
        (each item mem_cons_self state middle holds outcome) result
      exact ⟨other, mem_cons_of_mem _ mem, last, kept, failed⟩

/-- A fold succeeds when each item succeeds in a state that the items before it preserve. -/
theorem foldlM_ok (each : ∀ item ∈ items, ∀ state, Holds state →
      ∃ after, run state item = .ok after ∧ Holds after) (state : State) (holds : Holds state) :
    ∃ after, items.foldlM run state = .ok after ∧ Holds after := by
  induction items generalizing state with
  | nil => exact ⟨state, rfl, holds⟩
  | cons item rest ih =>
    obtain ⟨middle, ran, kept⟩ := each item mem_cons_self state holds
    rw [foldlM_cons, ran]
    exact ih (forall_mem_cons.mp each).2
      middle kept

/-- A fold succeeds when each item leads from what holds of the items before it to what holds of
them and itself. -/
theorem foldlM_done (Holds : List Item → State → Prop) (items : List Item)
    (each : ∀ done item rest, items = done ++ item :: rest →
      ∀ state, Holds done state → ∃ after, run state item = .ok after ∧ Holds
        (done ++ [item]) after) (state : State) (holds : Holds [] state) :
    ∃ after, items.foldlM run state = .ok after ∧ Holds items after := by
  have continued : ∀ rest done : List Item, items = done ++ rest → ∀ state, Holds done state →
      ∃ after, rest.foldlM run state = .ok after ∧ Holds items after := by
    intro rest
    induction rest with
    | nil =>
      intro done same state holds
      rw [same, append_nil]
      exact ⟨state, rfl, holds⟩
    | cons item rest ih =>
      intro done same state holds
      obtain ⟨middle, ran, kept⟩ := each done item rest same state holds
      rw [foldlM_cons, ran]
      exact ih (done ++ [item]) (by rw [same, append_cons]) middle kept
  exact continued items [] rfl state holds

/-- A loop over the indices up to a count succeeds when each turn leads to what holds behind it. -/
theorem foldlM_range (Holds : Nat → State → Prop) {run : State → Nat → Except Exit State}
    (count : Nat) (each : ∀ idx < count, ∀ state, Holds idx state →
      ∃ after, run state idx = .ok after ∧ Holds (idx + 1) after)
    (state : State) (holds : Holds 0 state) :
    ∃ after, (List.range count).foldlM run state = .ok after ∧ Holds count after := by
  induction count with
  | zero => exact ⟨state, rfl, holds⟩
  | succ count ih =>
    obtain ⟨middle, ran, kept⟩ := ih fun idx below => each idx (lt_succ_of_lt below)
    obtain ⟨after, last, final⟩ := each count (lt_succ_self count) middle kept
    refine ⟨after, ?_, final⟩
    rw [range_succ, foldlM_append, ran]
    show [count].foldlM run middle = .ok after
    rw [foldlM_cons, last]
    rfl

/-- A fold comes to an item in a state. -/
def Visits (run : State → Item → Except Exit State) (items : List Item) (start state : State)
    (item : Item) : Prop :=
  ∃ before after, items = before ++ item :: after ∧ before.foldlM run start = .ok state

theorem visits_cons_iff {run : State → Item → Except Exit State} {first item : Item}
    {rest : List Item} {start middle state : State} (ran : run start first = .ok middle) :
    Visits run (first :: rest) start state item ↔
      (state = start ∧ item = first) ∨ Visits run rest middle state item := by
  constructor
  · rintro ⟨before, after, same, result⟩
    cases before with
    | nil =>
      cases same
      cases result
      exact .inl ⟨rfl, rfl⟩
    | cons head before =>
      cases same
      rw [foldlM_cons, ran] at result
      exact .inr ⟨before, after, rfl, result⟩
  · rintro (⟨rfl, rfl⟩ | ⟨before, after, rfl, result⟩)
    · exact ⟨[], rest, rfl, rfl⟩
    · refine ⟨first :: before, after, rfl, ?_⟩
      rw [foldlM_cons, ran]
      exact result

theorem Visits.mem {items : List Item} {state : State}
    (visits : Visits run items start state item) : item ∈ items := by
  obtain ⟨before, after, rfl, _⟩ := visits
  exact mem_append_right _ mem_cons_self

variable {final : State}

/-- A fold that succeeds comes to each of its items. -/
theorem visits_of_mem {items : List Item} (mem : item ∈ items)
    (result : items.foldlM run start = .ok final) : ∃ state, Visits run items start state item := by
  obtain ⟨before, after, rfl⟩ := append_of_mem mem
  rw [foldlM_append] at result
  obtain ⟨state, reached, _⟩ := bind_ok result
  exact ⟨state, before, after, rfl, reached⟩

/-- Every turn of a fold that succeeds does. -/
theorem Visits.ok {items : List Item} {state : State} (visits : Visits run items start state item)
    (result : items.foldlM run start = .ok final) : ∃ after, run state item = .ok after := by
  obtain ⟨before, after, rfl, reached⟩ := visits
  rw [foldlM_append, reached] at result
  obtain ⟨next, ran, _⟩ := bind_ok ((foldlM_cons (f := run) ..).symm.trans result)
  exact ⟨next, ran⟩

/-- What the items of a fold record is what its result has. -/
theorem foldlM_records {Entry : Type} (Has : State → Entry → Prop)
    (Adds : State → Item → Entry → Prop) (items : List Item) (start final : State)
    (each : ∀ state item after, Visits run items start state item → run state item = .ok after →
      ∀ entry, Has after entry ↔ Has state entry ∨ Adds state item entry)
    (result : items.foldlM run start = .ok final) (entry : Entry) :
    Has final entry ↔ Has start entry ∨
      ∃ state item, Visits run items start state item ∧ Adds state item entry := by
  induction items generalizing start with
  | nil =>
    cases result
    refine (or_iff_left ?_).symm
    rintro ⟨_, _, visits, _⟩
    cases visits.mem
  | cons first rest ih =>
    rw [foldlM_cons] at result
    obtain ⟨middle, ran, later⟩ := bind_ok result
    have visits := @visits_cons_iff _ _ _ run first
    rw [ih middle (fun state item after reached =>
        each state item after ((visits ran).mpr (.inr reached))) later,
      each start first middle ((visits ran).mpr (.inl ⟨rfl, rfl⟩)) ran, or_assoc]
    refine or_congr_right ?_
    constructor
    · rintro (adds | ⟨state, item, reached, adds⟩)
      · exact ⟨start, first, (visits ran).mpr (.inl ⟨rfl, rfl⟩), adds⟩
      · exact ⟨state, item, (visits ran).mpr (.inr reached), adds⟩
    · rintro ⟨state, item, reached, adds⟩
      rcases (visits ran).mp reached with ⟨rfl, rfl⟩ | inRest
      · exact .inl adds
      · exact .inr ⟨state, item, inRest, adds⟩

end Run

/-! ### Loops over a list -/

/-- A loop over the elements of a list and their positions. -/
theorem foldl_zipIdx {Item State : Type} (Holds : Nat → State → Prop)
    {step : State → Item × Nat → State} (items : List Item) (start : Nat) (state : State)
    (holds : Holds start state)
    (each : ∀ idx item, items[idx]? = some item → ∀ state, Holds (start + idx) state →
      Holds (start + idx + 1) (step state (item, start + idx))) :
    Holds (start + items.length) ((items.zipIdx start).foldl step state) := by
  induction items generalizing start state with
  | nil => exact holds
  | cons head tail ih =>
    rw [zipIdx_cons, foldl_cons, length_cons, Nat.add_comm tail.length, ← Nat.add_assoc]
    refine ih (start + 1) _ (each 0 head rfl state holds) ?_
    intro idx item found current current_holds
    have shifted : start + 1 + idx = start + (idx + 1) := by omega
    rw [shifted] at current_holds ⊢
    exact each (idx + 1) item found current current_holds

/-- A loop whose turns only append to a list that its state holds. -/
theorem foldl_gathers {Item State Entry : Type} (gathered : State → List Entry)
    {step : State → Item → State} {entries : Item → List Entry} (items : List Item) (state : State)
    (each : ∀ item ∈ items, ∀ state, gathered (step state item) = gathered state ++ entries item) :
    gathered (items.foldl step state) = gathered state ++ items.flatMap entries := by
  induction items generalizing state with
  | nil => exact (append_nil _).symm
  | cons head tail ih =>
    rw [foldl_cons, ih _ (forall_mem_cons.mp each).2,
      each head mem_cons_self, flatMap_cons, append_assoc]

/-! ### Loops -/

/-- What one turn of a loop does. -/
inductive Turn (State Exit : Type)
  | next (state : State)
  | leave (state : State)
  | exit (result : Exit)
deriving Repr

namespace Turn

variable {State Exit : Type}

/-- The state a turn leads to is the given one. -/
def LeadsTo (turn : Turn State Exit) (state : State) : Prop :=
  turn = .next state ∨ turn = .leave state

/-- At most the given number of turns of a loop. -/
def loop (body : State → Turn State Exit) : Nat → State → Except Exit State
  | 0, state => .ok state
  | fuel + 1, state =>
    match body state with
    | .next after => loop body fuel after
    | .leave last => .ok last
    | .exit result => .error result

variable {body : State → Turn State Exit} {state : State}

theorem loop_succ_next {after : State} (turn : body state = .next after) (fuel : Nat) :
    loop body (fuel + 1) state = loop body fuel after := by
  rw [loop, turn]

theorem loop_succ_leave {last : State} (turn : body state = .leave last) (fuel : Nat) :
    loop body (fuel + 1) state = .ok last := by
  rw [loop, turn]

theorem loop_succ_exit {result : Exit} (turn : body state = .exit result) (fuel : Nat) :
    loop body (fuel + 1) state = .error result := by
  rw [loop, turn]

/-! ### Invariants -/

variable (Holds : State → Prop)

/-- What every turn preserves, the loop preserves. -/
theorem loop_preserves
    (preserved : ∀ state after, Holds state → (body state).LeadsTo after → Holds after)
    (fuel : Nat) : Run.Preserves Holds (loop body fuel) := by
  intro state final holds result
  induction fuel generalizing state with
  | zero =>
    rw [loop, ok.injEq] at result
    rw [← result]
    exact holds
  | succ fuel ih =>
    cases turn : body state with
    | next after =>
      rw [loop_succ_next turn] at result
      exact ih after (preserved state after holds (.inl turn)) result
    | leave after =>
      rw [loop_succ_leave turn, ok.injEq] at result
      rw [← result]
      exact preserved state after holds (.inr turn)
    | exit exited =>
      rw [loop_succ_exit turn] at result
      cases result

/-- A loop that exits does so from a state in which its invariant holds. -/
theorem loop_exit (preserved : ∀ state after, Holds state → body state = .next after → Holds after)
    (fuel : Nat) (state : State) (exited : Exit) (holds : Holds state)
    (result : loop body fuel state = .error exited) :
    ∃ last, Holds last ∧ body last = .exit exited := by
  induction fuel generalizing state with
  | zero => cases result
  | succ fuel ih =>
    cases turn : body state with
    | next after =>
      rw [loop_succ_next turn] at result
      exact ih after (preserved state after holds turn) result
    | leave after =>
      rw [loop_succ_leave turn] at result
      cases result
    | exit final =>
      rw [loop_succ_exit turn, error.injEq] at result
      exact ⟨state, holds, by rw [turn, result]⟩

/-- A fact that passes from the state after a turn to the state before it passes from the end
of the loop to its start. -/
theorem loop_reflects (Later : State → Prop)
    (reflected : ∀ state after, Later after → (body state).LeadsTo after → Later state)
    (fuel : Nat) : Run.Reflects Later (loop body fuel) := by
  intro state final holds result
  induction fuel generalizing state with
  | zero =>
    rw [loop, ok.injEq] at result
    rw [result]
    exact holds
  | succ fuel ih =>
    cases turn : body state with
    | next after =>
      rw [loop_succ_next turn] at result
      exact reflected state after (ih after result) (.inl turn)
    | leave after =>
      rw [loop_succ_leave turn, ok.injEq] at result
      exact reflected state after (result ▸ holds) (.inr turn)
    | exit exited =>
      rw [loop_succ_exit turn] at result
      cases result

/-! ### Two loops in step -/

/-- A loop runs in step with another one when its turns do. -/
theorem loop_inStep {Other OtherExit : Type} {other : Other → Turn Other OtherExit}
    (Related : State → Other → Prop) (Later : State → Prop)
    (reflected : ∀ state after, Later after → (body state).LeadsTo after → Later state)
    (next : ∀ state after follower, Later after → Related state follower →
      body state = .next after → ∃ following, other follower = .next following ∧
        Related after following)
    (leave : ∀ state after follower, Later after → Related state follower →
      body state = .leave after → ∃ following, other follower = .leave following ∧
        Related after following) (fuel : Nat) :
    Run.InStep Related Later (loop body fuel) (loop other fuel) := by
  intro state final follower later related result
  induction fuel generalizing state follower with
  | zero =>
    rw [loop, ok.injEq] at result
    exact ⟨follower, rfl, result ▸ related⟩
  | succ fuel ih =>
    cases turn : body state with
    | next after =>
      rw [loop_succ_next turn] at result
      obtain ⟨following, turned, step⟩ := next state after follower
        (loop_reflects Later reflected fuel after final later result) related turn
      obtain ⟨last, looped, kept⟩ := ih after following step result
      exact ⟨last, by rw [loop_succ_next turned, looped], kept⟩
    | leave after =>
      rw [loop_succ_leave turn, ok.injEq] at result
      obtain ⟨following, turned, step⟩ := leave state after follower (result ▸ later) related turn
      exact ⟨following, loop_succ_leave turned fuel, result ▸ step⟩
    | exit exited =>
      rw [loop_succ_exit turn] at result
      cases result

/-! ### The number of turns -/

/-- A loop whose turns lower a measure ends before its fuel does: it exits, or its last turn
leaves the loop. -/
theorem loop_ends (preserved : ∀ state after, Holds state → body state = .next after → Holds after)
    (measure : State → Nat) (lowered : ∀ state after, Holds state → body state = .next after →
      measure after < measure state) (fuel : Nat) (state final : State) (holds : Holds state)
    (enough : measure state < fuel) (result : loop body fuel state = .ok final) :
    ∃ last, body last = .leave final := by
  induction fuel generalizing state with
  | zero => omega
  | succ fuel ih =>
    cases turn : body state with
    | next after =>
      rw [loop_succ_next turn] at result
      have fewer := lowered state after holds turn
      exact ih after (preserved state after holds turn) (by omega) result
    | leave after =>
      rw [loop_succ_leave turn, ok.injEq] at result
      exact ⟨state, by rw [turn, result]⟩
    | exit exited =>
      rw [loop_succ_exit turn] at result
      cases result

/-- When every turn that goes on leaves a trace that later turns keep, a loop without the trace
has been left at its first turn. -/
theorem loop_idle (Moved : State → Prop)
    (moves : ∀ state after, body state = .next after → Moved after)
    (stays : ∀ state after, Moved state → (body state).LeadsTo after → Moved after) (fuel : Nat)
    (state final : State) (result : loop body (fuel + 1) state = .ok final) (idle : ¬ Moved final) :
    body state = .leave final := by
  cases turn : body state with
  | next after =>
    rw [loop_succ_next turn] at result
    exact absurd (loop_preserves Moved stays fuel after final (moves state after turn) result) idle
  | leave after =>
    rw [loop_succ_leave turn, ok.injEq] at result
    rw [result]
  | exit exited =>
    rw [loop_succ_exit turn] at result
    cases result

end Turn

/-! ### Loops that may fail -/

namespace Attempt

variable {Item Inner State : Type}

theorem foldlM_flatMap (inner : Item → List Inner) (run : State → Inner → Option State)
    (items : List Item) (state : State) :
    (items.flatMap inner).foldlM run state =
      items.foldlM (fun state item => (inner item).foldlM run state) state := by
  induction items generalizing state with
  | nil => rfl
  | cons item rest ih =>
    rw [flatMap_cons, foldlM_append, foldlM_cons]
    exact bind_congr fun middle => ih middle

variable {items : List Item} {run : State → Item → Option State} {state final : State}
  (Holds : List Item → State → Prop)

theorem foldlM_congr {other : State → Item → Option State} (items : List Item)
    (same : ∀ item ∈ items, ∀ state, run state item = other state item) (state : State) :
    items.foldlM run state = items.foldlM other state := by
  induction items generalizing state with
  | nil => rfl
  | cons item rest ih =>
    obtain ⟨first, others⟩ := forall_mem_cons.mp same
    rw [foldlM_cons, foldlM_cons, first]
    exact bind_congr fun middle => ih others middle

/-- A loop fails when one of its turns does. -/
theorem foldlM_eq_none {item : Item} (mem : item ∈ items)
    (fails : ∀ state, run state item = none) (state : State) : items.foldlM run state = none := by
  induction items generalizing state with
  | nil => exact absurd mem not_mem_nil
  | cons first rest ih =>
    rw [foldlM_cons]
    rcases mem_cons.mp mem with rfl | later
    · rw [fails]
      rfl
    · cases run state first with
      | none => rfl
      | some after => exact ih later after

/-- What holds when some items are done holds when one more is done. -/
theorem foldlM_done
    (step : ∀ done item rest, items = done ++ item :: rest → ∀ state after, Holds done state →
      run state item = some after → Holds (done ++ [item]) after) (start : Holds [] state)
    (ran : items.foldlM run state = some final) : Holds items final := by
  have each : ∀ rest done, items = done ++ rest → ∀ state, Holds done state →
      rest.foldlM run state = some final → Holds items final := by
    intro rest
    induction rest with
    | nil =>
      intro done split state holds ran
      cases ran
      rw [split, append_nil]
      exact holds
    | cons item rest ih =>
      intro done split state holds ran
      rw [foldlM_cons] at ran
      obtain ⟨after, stepped, ran⟩ := Option.bind_eq_some_iff.mp ran
      exact ih (done ++ [item]) (by rw [split, append_assoc]; rfl) after
        (step done item rest split state after holds stepped) ran
  exact each items [] rfl state start ran

/-- What holds before each turn of a loop over the indices up to a count holds behind it. -/
theorem foldlM_range (Holds : Nat → State → Prop) {run : State → Nat → Option State} {count : Nat}
    (step : ∀ idx < count, ∀ state after, Holds idx state → run state idx = some after →
      Holds (idx + 1) after) (start : Holds 0 state)
    (ran : (List.range count).foldlM run state = some final) : Holds count final := by
  induction count generalizing final with
  | zero =>
    cases ran
    exact start
  | succ count ih =>
    rw [range_succ, foldlM_append] at ran
    obtain ⟨middle, first, last⟩ := Option.bind_eq_some_iff.mp ran
    rw [foldlM_cons] at last
    obtain ⟨after, turn, done⟩ := Option.bind_eq_some_iff.mp last
    cases done
    exact step count (lt_succ_self count) middle _
      (ih (fun idx below => step idx (lt_succ_of_lt below)) first) turn

/-- A loop over the indices up to a count succeeds when each turn leads to what holds behind it. -/
theorem exists_foldlM_range (Holds : Nat → State → Prop) {run : State → Nat → Option State}
    (count : Nat) (step : ∀ idx < count, ∀ state, Holds idx state →
      ∃ after, run state idx = some after ∧ Holds (idx + 1) after) (start : Holds 0 state) :
    ∃ final, (List.range count).foldlM run state = some final ∧ Holds count final := by
  induction count with
  | zero => exact ⟨state, rfl, start⟩
  | succ count ih =>
    obtain ⟨middle, ran, holds⟩ := ih fun idx below => step idx (lt_succ_of_lt below)
    obtain ⟨after, turn, done⟩ := step count (lt_succ_self count) middle holds
    refine ⟨after, ?_, done⟩
    rw [range_succ, foldlM_append, ran]
    show [count].foldlM run middle = some after
    rw [foldlM_cons, turn]
    rfl

/-- A loop succeeds when each item leads from what holds of the items before it to what holds of
them and itself. -/
theorem exists_foldlM
    (step : ∀ done item rest, items = done ++ item :: rest → ∀ state, Holds done state →
      ∃ after, run state item = some after ∧ Holds (done ++ [item]) after)
    (start : Holds [] state) :
    ∃ final, items.foldlM run state = some final ∧ Holds items final := by
  have continued : ∀ rest done, items = done ++ rest → ∀ state, Holds done state →
      ∃ final, rest.foldlM run state = some final ∧ Holds items final := by
    intro rest
    induction rest with
    | nil =>
      intro done split state holds
      rw [split, append_nil]
      exact ⟨state, rfl, holds⟩
    | cons item rest ih =>
      intro done split state holds
      obtain ⟨after, turn, held⟩ := step done item rest split state holds
      rw [foldlM_cons, turn]
      exact ih (done ++ [item]) (by rw [split, append_assoc]; rfl) after held
  exact continued items [] rfl state start

variable {Value : Type} {values : List Value}

/-- A function that does not fail on any item has a result for each of them. -/
theorem mapM_eq_some_iff {run : Item → Option Value} :
    items.mapM run = some values ↔
      List.Forall₂ (fun item value => run item = some value) items values := by
  induction items generalizing values with
  | nil =>
    rw [mapM_nil, forall₂_nil_left_iff]
    exact ⟨fun same => (Option.some.inj same).symm, fun same => congrArg some same.symm⟩
  | cons item rest ih =>
    rw [mapM_cons, forall₂_cons_left_iff]
    simp only [Option.bind_eq_bind, Option.bind_eq_some_iff, Option.pure_def, Option.some.injEq, ih]
    exact ⟨fun ⟨value, found, others, rest, same⟩ => ⟨value, others, found, rest, same.symm⟩,
      fun ⟨value, others, found, rest, same⟩ => ⟨value, found, others, rest, same.symm⟩⟩

theorem exists_of_mem_mapM {run : Item → Option Value} (result : items.mapM run = some values)
    {value : Value} (mem : value ∈ values) : ∃ item ∈ items, run item = some value := by
  induction mapM_eq_some_iff.mp result with
  | nil => exact absurd mem not_mem_nil
  | cons first rest ih =>
    rcases mem_cons.mp mem with rfl | later
    · exact ⟨_, mem_cons_self, first⟩
    · obtain ⟨item, inside, found⟩ :=
        ih (mapM_eq_some_iff.mpr rest) later
      exact ⟨item, mem_cons_of_mem _ inside, found⟩

theorem mapM_congr {run other : Item → Option Value}
    (same : ∀ item ∈ items, run item = other item) : items.mapM run = items.mapM other := by
  induction items with
  | nil => rfl
  | cons first rest ih =>
    obtain ⟨isFirst, isRest⟩ := forall_mem_cons.mp same
    rw [mapM_cons, mapM_cons, isFirst, ih isRest]

theorem mapM_replicate (items : List Item) (value : Value) :
    (items.mapM fun _ => some value) = some (List.replicate items.length value) := by
  induction items with
  | nil => rfl
  | cons first rest ih =>
    rw [mapM_cons, ih]
    rfl

end Attempt

namespace Alongside

variable {Item Image : Type} {Takes : Item → Image → Prop} {items : List Item}
  {images : List Image}

section

variable (taken : Forall₂ Takes items images)
include taken

variable {item : Item} {image : Image} (place : Nat)

theorem getElem?_right (stands : items[place]? = some item) :
    ∃ image, images[place]? = some image ∧ Takes item image := by
  induction taken generalizing place with
  | nil => exact absurd stands (by simp)
  | cons here _ ih =>
    cases place with
    | zero =>
      obtain rfl := Option.some.inj stands
      exact ⟨_, rfl, here⟩
    | succ place => exact ih place stands

theorem getElem?_left (stands : images[place]? = some image) :
    ∃ item, items[place]? = some item ∧ Takes item image :=
  getElem?_right taken.flip place stands

theorem exists_of_mem_left (mem : item ∈ items) : ∃ image ∈ images, Takes item image := by
  obtain ⟨place, stands⟩ := getElem?_of_mem mem
  obtain ⟨image, found, takes⟩ := getElem?_right taken place stands
  exact ⟨image, mem_of_getElem? found, takes⟩

theorem exists_of_mem_right (mem : image ∈ images) : ∃ item ∈ items, Takes item image :=
  exists_of_mem_left taken.flip mem

/-- Items that are kept apart are kept apart by what is taken from each of them. -/
theorem pairwise {Apart : Item → Item → Prop} {ApartAfter : Image → Image → Prop}
    (keeps : ∀ {first second firstImage secondImage}, Takes first firstImage →
      Takes second secondImage → Apart first second → ApartAfter firstImage secondImage)
    (apart : items.Pairwise Apart) : images.Pairwise ApartAfter := by
  induction taken with
  | nil => exact Pairwise.nil
  | cons takes later ih =>
    obtain ⟨fromFirst, amongRest⟩ := pairwise_cons.mp apart
    refine pairwise_cons.mpr ⟨fun image mem => ?_, ih amongRest⟩
    obtain ⟨item, itemMember, itemTakes⟩ := exists_of_mem_right later mem
    exact keeps takes itemTakes (fromFirst item itemMember)

end

theorem of_mapM {Exit : Type} {run : Item → Except Exit Image} (res : items.mapM run = .ok images) :
    Forall₂ (fun item image => run item = .ok image) items images := by
  induction items generalizing images with
  | nil =>
    cases res
    exact .nil
  | cons item rest ih =>
    rw [mapM_cons] at res
    obtain ⟨image, ran, later⟩ := Run.bind_ok res
    obtain ⟨others, ranOthers, same⟩ := Run.bind_ok later
    cases same
    exact .cons ran (ih ranOthers)

end Alongside

open Function

namespace Memo

variable {Cache Result Item : Type}

/-- From every valid cache the run has the result and leaves the cache valid. -/
def Computes (Valid : Cache → Prop) (run : Cache → Result × Cache) (result : Result) : Prop :=
  ∀ cache, Valid cache → (run cache).1 = result ∧ Valid (run cache).2

variable {Valid : Cache → Prop}

theorem computes_pure (result : Result) : Computes Valid (fun cache => (result, cache)) result :=
  fun _ valid => ⟨rfl, valid⟩

/-- A loop computes what the loop without the cache computes. -/
theorem Computes.foldl {step : Result → Item → Cache → Result × Cache}
    {plain : Result → Item → Result}
    (each : ∀ result item, Computes Valid (step result item) (plain result item))
    (items : List Item) {start : Cache → Result × Cache} {first : Result}
    (computes : Computes Valid start first) :
    Computes Valid
      (fun cache => items.foldl (fun found item => step found.1 item found.2) (start cache))
      (items.foldl plain first) := by
  induction items generalizing start first with
  | nil => exact computes
  | cons item rest ih =>
    have here : Computes Valid (fun cache => step (start cache).1 item (start cache).2)
        (plain first item) := fun cache valid => by
      obtain ⟨same, kept⟩ := computes cache valid
      have next := each (start cache).1 item _ kept
      exact ⟨next.1.trans (by rw [same]), next.2⟩
    exact ih here

/-! ### Caches of the results for keys -/

variable {Key : Type}

/-- What the cache has for the keys in question is the result for them. -/
def Agrees (result : Key → Result) (Known : Key → Prop) (cache : Key → Option Result) : Prop :=
  ∀ key found, Known key → cache key = some found → found = result key

theorem agrees_empty (result : Key → Result) (Known : Key → Prop) :
    Agrees result Known fun _ => none := fun _ _ _ => nofun

/-- A result that the cache has is looked up, another one is computed and stored. -/
theorem computes_lookup [DecidableEq Key] {result : Key → Result} {Known : Key → Prop} {key : Key}
    (known : Known key) {run : (Key → Option Result) → Result × (Key → Option Result)}
    (hit : ∀ {cache found}, cache key = some found → run cache = (found, cache))
    (miss : ∀ {cache}, cache key = none →
      run cache = (result key, Function.update cache key (some (result key)))) :
    Computes (Agrees result Known) run (result key) := by
  intro cache agrees
  cases stored : cache key with
  | some found =>
    rw [hit stored]
    exact ⟨agrees key found known stored, agrees⟩
  | none =>
    rw [miss stored]
    refine ⟨rfl, fun other found knownOther storedOther => ?_⟩
    dsimp only at storedOther
    by_cases same : other = key
    · rw [same, update_self] at storedOther
      rw [same]
      exact (Option.some.inj storedOther).symm
    · rw [update_of_ne same] at storedOther
      exact agrees other found knownOther storedOther

end Memo

namespace Sweep

variable {Index Entry : Type} [DecidableEq Index] (renew : (Index → Entry) → Index → Entry)

def sweep (order : List Index) (table : Index → Entry) : Index → Entry :=
  order.foldl (fun table index => Function.update table index (renew table index)) table

variable {renew} {order : List Index} {index : Index}

theorem sweep_of_not_mem (apart : index ∉ order) (table : Index → Entry) :
    sweep renew order table index = table index := by
  induction order generalizing table with
  | nil => rfl
  | cons first rest ih =>
    obtain ⟨other, apartRest⟩ := ne_and_not_mem_of_not_mem_cons apart
    exact (ih apartRest _).trans (update_of_ne other ..)

/-- What is in front of a part of the order is not changed any more. -/
theorem sweep_append (before after : List Index) (table : Index → Entry) :
    sweep renew (before ++ after) table = sweep renew after (sweep renew before table) :=
  foldl_append

/-- In an order that is sorted, an entry is renewed when the smaller ones have been. -/
theorem sweep_eq {before : Index → Index → Prop} [DecidableRel before]
    (sorted : order.Pairwise before) (asymm : ∀ {index other}, before index other →
      ¬ before other index) (mem : index ∈ order) (table : Index → Entry) :
    sweep renew order table index = renew (fun other =>
      if other ∈ order ∧ before other index then sweep renew order table other
      else table other) index := by
  obtain ⟨front, rest, rfl⟩ := append_of_mem mem
  obtain ⟨sortedFront, sortedRest, across⟩ := pairwise_append.mp sorted
  obtain ⟨behind, -⟩ := pairwise_cons.mp sortedRest
  have apartRest : index ∉ rest := fun inRest => asymm (behind index inRest) (behind index inRest)
  have here : sweep renew (front ++ index :: rest) table index =
      renew (sweep renew front table) index := by
    rw [sweep_append]
    exact (sweep_of_not_mem apartRest _).trans (update_self ..)
  rw [here]
  congr 1
  funext other
  have notAfter : before other index → other ∉ index :: rest := fun smaller inRest =>
    (mem_cons.mp inRest).elim (fun same => asymm (same ▸ smaller) (same ▸ smaller))
      fun later => asymm (behind other later) smaller
  by_cases inFront : other ∈ front
  · have smaller := across other inFront index mem_cons_self
    rw [if_pos ⟨mem_append_left _ inFront, smaller⟩, sweep_append,
      sweep_of_not_mem (notAfter smaller)]
  · have late : ¬ (other ∈ front ++ index :: rest ∧ before other index) := fun both =>
      (mem_append.mp both.1).elim inFront (notAfter both.2)
    rw [if_neg late, sweep_of_not_mem inFront]

end Sweep

end NpuPlugin
