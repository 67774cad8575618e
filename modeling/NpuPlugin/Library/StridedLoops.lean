/-
This file develops nested loops that walk over memory: every level repeats what the levels inside of
it visit, one step further each time. When no step is smaller than what the levels inside of it
reach over, the loops visit every offset once and in order.
-/

import Mathlib.Algebra.BigOperators.Group.List.Basic
import Mathlib.Tactic.Ring

namespace NpuPlugin.StridedLoops

open List Nat

structure Level where
  count : Nat
  step : Nat
deriving DecidableEq, Repr

/-- How far the turns of a level reach, the last step included. -/
def Level.reach (level : Level) : Nat := level.count * level.step

/-- What is visited when a level repeats the given offsets. -/
def repeated (visited : List Nat) (level : Level) : List Nat :=
  (List.range level.count).flatMap fun idx => visited.map fun offset => offset + idx *
    level.step

/-- What is visited by levels around the given offsets. The innermost level comes first. -/
def nest (visited : List Nat) (levels : List Level) : List Nat := levels.foldl repeated visited

/-- An offset is a sum of turns of the levels. -/
def Reached : List Level → Nat → Prop
  | [], offset => offset = 0
  | level :: rest, offset =>
    ∃ idx < level.count, ∃ other, Reached rest other ∧ offset = idx * level.step + other

/-- No step is smaller than what the levels inside of it reach over, which begins with a width. -/
def Nested : Nat → List Level → Prop
  | _, [] => True
  | width, level :: rest => width ≤ level.step ∧ Nested level.reach rest

variable {visited : List Nat} {level : Level} {levels : List Level} {width : Nat}

/-! ### Visited offsets -/

theorem mem_repeated {offset : Nat} : offset ∈ repeated visited level ↔
    ∃ idx < level.count, ∃ inner ∈ visited, offset = inner + idx * level.step := by
  unfold repeated
  simp only [mem_flatMap, mem_range, mem_map, eq_comm]

/-- The loops visit the sums of what they begin with and of their turns. -/
theorem mem_nest {offset : Nat} : offset ∈ nest visited levels ↔
    ∃ inner ∈ visited, ∃ outer, Reached levels outer ∧ offset = inner + outer := by
  induction levels generalizing visited with
  | nil =>
    constructor
    · exact fun mem => ⟨offset, mem, 0, rfl, rfl⟩
    · rintro ⟨inner, mem, outer, rfl, same⟩
      rw [same]
      exact mem
  | cons level rest ih =>
    show offset ∈ nest (repeated visited level) rest ↔ _
    rw [ih]
    constructor
    · rintro ⟨middle, mem, outer, reached, same⟩
      obtain ⟨idx, small, inner, inVisited, here⟩ := mem_repeated.mp mem
      exact ⟨inner, inVisited, idx * level.step + outer, ⟨idx, small, outer, reached, rfl⟩,
        by rw [same, here, add_assoc]⟩
    · rintro ⟨inner, inVisited, total, ⟨idx, small, outer, reached, here⟩, same⟩
      exact ⟨inner + idx * level.step, mem_repeated.mpr ⟨idx, small, inner, inVisited, rfl⟩,
        outer, reached, by rw [same, here, add_assoc]⟩

theorem length_repeated : (repeated visited level).length = level.count * visited.length := by
  unfold repeated
  rw [length_flatMap, map_congr_left (g := fun _ => visited.length) fun idx _ =>
    length_map _, map_const', length_range, sum_replicate_nat]

theorem length_nest :
    (nest visited levels).length = visited.length * (levels.map Level.count).prod := by
  induction levels generalizing visited with
  | nil => rw [map_nil, prod_nil, mul_one, nest, foldl_nil]
  | cons level rest ih =>
    show (nest (repeated visited level) rest).length = _
    rw [ih, length_repeated, map_cons, prod_cons]
    ring

section

variable (sorted : visited.Pairwise (· < ·)) (below : ∀ offset ∈ visited, offset < width)
include sorted below

/-- What is repeated at a distance that it does not reach over stays in order. -/
theorem repeated_sorted (apart : width ≤ level.step) : (repeated visited level).Pairwise (· < ·) ∧
      ∀ offset ∈ repeated visited level, offset < level.reach := by
  have next : ∀ {first second : Nat}, first < second →
      first * level.step + level.step ≤ second * level.step := by
    intro first second less
    rw [← succ_mul]
    exact mul_le_mul_right _ less
  constructor
  · unfold repeated
    refine pairwise_flatMap.mpr ⟨fun idx _ => ?_, ?_⟩
    · exact pairwise_map.mpr (sorted.imp fun less => Nat.add_lt_add_right less _)
    · refine pairwise_lt_range.imp fun {first second} less offset inFirst other inSecond => ?_
      obtain ⟨inner, mem, rfl⟩ := mem_map.mp inFirst
      obtain ⟨outer, _, rfl⟩ := mem_map.mp inSecond
      have small := below inner mem
      have further := next less
      omega
  · intro offset mem
    obtain ⟨idx, small, inner, inVisited, rfl⟩ := mem_repeated.mp mem
    have here := below inner inVisited
    have further := next small
    unfold Level.reach
    omega

theorem nest_sorted (nested : Nested width levels) : (nest visited levels).Pairwise (· < ·) := by
  induction levels generalizing visited width with
  | nil => exact sorted
  | cons level rest ih =>
    obtain ⟨apart, inside⟩ := nested
    obtain ⟨inOrder, within⟩ := repeated_sorted sorted below apart
    exact ih inOrder within inside

end

/-! ### Merging levels -/

variable {rest : List Level} {offset : Nat} {current : Level}

theorem reached_single {step : Nat} : Reached (⟨1, step⟩ :: rest) offset ↔ Reached rest offset := by
  constructor
  · rintro ⟨idx, small, other, reached, same⟩
    obtain rfl := lt_one_iff.mp small
    rw [same, zero_mul, zero_add]
    exact reached
  · exact fun reached => ⟨0, one_pos, offset, reached, by rw [zero_mul, zero_add]⟩

/-- A level that goes on where the one inside of it stops is merged with it. -/
theorem reached_merge {first second : Level} (compact : second.step = first.reach) :
    Reached (first :: second :: rest) offset ↔
      Reached (⟨first.count * second.count, first.step⟩ :: rest) offset := by
  unfold Level.reach at compact
  constructor
  · rintro ⟨inner, innerSmall, middle, ⟨outer, outerSmall, other, reached, here⟩, same⟩
    refine ⟨outer * first.count + inner, ?_, other, reached, ?_⟩
    · have next : (outer + 1) * first.count ≤ second.count * first.count :=
        mul_le_mul_right _ outerSmall
      rw [succ_mul] at next
      dsimp only
      rw [mul_comm first.count]
      omega
    · rw [same, here, compact]
      ring
  · rintro ⟨idx, small, other, reached, same⟩
    have pos : 0 < first.count := Nat.pos_of_mul_pos_right (Nat.zero_lt_of_lt small)
    refine ⟨idx % first.count, mod_lt _ pos, _,
      ⟨idx / first.count, Nat.div_lt_of_lt_mul small, other, reached, rfl⟩, ?_⟩
    have split := div_add_mod idx first.count
    rw [same, compact]
    calc idx * first.step + other
        = (first.count * (idx / first.count) + idx % first.count) * first.step + other := by
          rw [split]
      _ = _ := by ring

/-- The levels without those that go on where the one inside of them stops. -/
def collapse (current : Level) : List Level → List Level
  | [] => [current]
  | level :: rest =>
    if current.reach < level.step then current :: collapse level rest
    else collapse ⟨current.count * level.count, current.step⟩ rest

theorem reached_cons {others : List Level} (same : ∀ offset, Reached rest offset ↔
    Reached others offset) (offset : Nat) :
    Reached (level :: rest) offset ↔ Reached (level :: others) offset := by
  unfold Reached
  simp only [same]

/-- Collapsed levels reach the same offsets. -/
theorem reached_collapse (nested : Nested current.reach levels) (offset : Nat) :
    Reached (collapse current levels) offset ↔ Reached (current :: levels) offset := by
  induction levels generalizing current offset with
  | nil => rfl
  | cons level rest ih =>
    obtain ⟨apart, inside⟩ := nested
    unfold collapse
    split
    · exact reached_cons (fun other => ih inside other) offset
    · next compact =>
      have meets : level.step = current.reach := le_antisymm (not_lt.mp compact) apart
      have reach : (⟨current.count * level.count, current.step⟩ : Level).reach = level.reach := by
        unfold Level.reach at *
        rw [meets]
        ring
      rw [reached_merge meets]
      exact ih (reach ▸ inside) offset

theorem nested_collapse (apart : width ≤ current.step) (nested : Nested current.reach levels) :
    Nested width (collapse current levels) := by
  induction levels generalizing current width with
  | nil => exact ⟨apart, trivial⟩
  | cons level rest ih =>
    obtain ⟨further, inside⟩ := nested
    unfold collapse
    split
    · exact ⟨apart, ih further inside⟩
    · next compact =>
      have meets : level.step = current.reach := le_antisymm (not_lt.mp compact) further
      have reach : (⟨current.count * level.count, current.step⟩ : Level).reach = level.reach := by
        unfold Level.reach at *
        rw [meets]
        ring
      exact ih apart (reach ▸ inside)

end NpuPlugin.StridedLoops
