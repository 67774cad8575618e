/-
This file develops lists of half-open intervals over a linear order that are sorted, nonempty and
pairwise separated by a gap. Such a list is determined by the set of points it covers, so that an
operation is specified by what it does to this set.
-/

import Mathlib.Order.Lattice
import Mathlib.Tactic.Common

namespace NpuPlugin.Intervals

open List

variable {Point : Type} [LinearOrder Point]

/-- A half-open interval. -/
structure Interval (Point : Type) where
  lower : Point
  upper : Point
deriving DecidableEq, Repr

def Interval.Contains (interval : Interval Point) (point : Point) : Prop :=
  interval.lower ≤ point ∧ point < interval.upper

/-- A point lies in some interval of the list. -/
def Covers (intervals : List (Interval Point)) (point : Point) : Prop :=
  ∃ interval ∈ intervals, interval.Contains point

/-- The intervals are nonempty, sorted, and no two of them touch. -/
structure Separated (intervals : List (Interval Point)) : Prop where
  nonempty : ∀ interval ∈ intervals, interval.lower < interval.upper
  apart : intervals.Pairwise fun first second => first.upper < second.lower

/-! ### The covered set -/

theorem covers_nil (point : Point) : ¬ Covers ([] : List (Interval Point)) point := by
  rintro ⟨interval, mem, _⟩
  cases mem

theorem covers_cons (interval : Interval Point) (rest : List (Interval Point)) (point : Point) :
    Covers (interval :: rest) point ↔ interval.Contains point ∨ Covers rest point := by
  simp [Covers]

theorem covers_append (first second : List (Interval Point)) (point : Point) :
    Covers (first ++ second) point ↔ Covers first point ∨ Covers second point := by
  simp only [Covers, mem_append, or_and_right, exists_or]

/-! ### Separated lists -/

theorem separated_nil : Separated ([] : List (Interval Point)) :=
  ⟨forall_mem_nil _, List.Pairwise.nil⟩

theorem separated_cons (interval : Interval Point) (rest : List (Interval Point)) :
    Separated (interval :: rest) ↔
      interval.lower < interval.upper ∧
        (∀ other ∈ rest, interval.upper < other.lower) ∧ Separated rest := by
  constructor
  · intro separated
    obtain ⟨ahead, behind⟩ := pairwise_cons.mp separated.apart
    exact ⟨separated.nonempty _ mem_cons_self, ahead,
      (forall_mem_cons.mp separated.nonempty).2, behind⟩
  · rintro ⟨pos, ahead, separated⟩
    refine ⟨fun other mem => ?_, pairwise_cons.mpr ⟨ahead, separated.apart⟩⟩
    rcases mem_cons.mp mem with rfl | tail
    · exact pos
    · exact separated.nonempty other tail

theorem separated_append (first second : List (Interval Point)) :
    Separated (first ++ second) ↔
      Separated first ∧ Separated second ∧
        ∀ left ∈ first, ∀ right ∈ second, left.upper < right.lower := by
  constructor
  · intro separated
    obtain ⟨left, right, cross⟩ := pairwise_append.mp separated.apart
    exact ⟨⟨(forall_mem_append.mp separated.nonempty).1, left⟩,
      ⟨(forall_mem_append.mp separated.nonempty).2, right⟩,
      cross⟩
  · rintro ⟨left, right, cross⟩
    refine ⟨fun other mem => ?_, pairwise_append.mpr ⟨left.apart, right.apart, cross⟩⟩
    rcases mem_append.mp mem with inLeft | inRight
    · exact left.nonempty other inLeft
    · exact right.nonempty other inRight

variable {interval : Interval Point} {rest : List (Interval Point)} {point : Point}

section

variable (separated : Separated (interval :: rest))
include separated

theorem Separated.upper_lt_of_covers_tail (covered : Covers rest point) :
    interval.upper < point := by
  obtain ⟨other, mem, lower, _⟩ := covered
  exact lt_of_lt_of_le (((separated_cons _ _).mp separated).2.1 other mem) lower

theorem Separated.lower_le_of_covers (covered : Covers (interval :: rest) point) :
    interval.lower ≤ point := by
  rcases (covers_cons _ _ _).mp covered with inside | tail
  · exact inside.1
  · have pos := separated.nonempty _ mem_cons_self
    exact (lt_trans pos (separated.upper_lt_of_covers_tail tail)).le

theorem Separated.covers_lower : Covers (interval :: rest) interval.lower :=
  ⟨interval, mem_cons_self, le_rfl, separated.nonempty _ mem_cons_self⟩

theorem Separated.not_covers_upper : ¬ Covers (interval :: rest) interval.upper := by
  intro covered
  rcases (covers_cons _ _ _).mp covered with inside | tail
  · exact lt_irrefl _ inside.2
  · exact lt_irrefl _ (separated.upper_lt_of_covers_tail tail)

end

/-- Two separated lists that start with the same lower end and cover the same points start
with the same upper end. -/
theorem Separated.upper_le_upper {first second : Interval Point}
    {firstRest secondRest : List (Interval Point)}
    (right : Separated (second :: secondRest)) (lower : first.lower = second.lower)
    (same : ∀ point, Covers (first :: firstRest) point ↔ Covers (second :: secondRest) point) :
    first.upper ≤ second.upper := by
  by_contra beyond
  have below : second.upper < first.upper := lt_of_not_ge beyond
  have inside : first.Contains second.upper := ⟨lower ▸ (right.nonempty _ mem_cons_self).le, below⟩
  exact right.not_covers_upper ((same _).mp ((covers_cons _ _ _).mpr (Or.inl inside)))

/-- A separated list is determined by the points it covers. -/
theorem Separated.eq_of_covers_iff {first second : List (Interval Point)}
    (left : Separated first) (right : Separated second)
    (same : ∀ point, Covers first point ↔ Covers second point) : first = second := by
  induction first generalizing second with
  | nil =>
    cases second with
    | nil => rfl
    | cons head rest => exact absurd ((same _).mpr right.covers_lower) (covers_nil _)
  | cons head rest ih =>
    cases second with
    | nil => exact absurd ((same _).mp left.covers_lower) (covers_nil _)
    | cons head' rest' =>
      have lower : head.lower = head'.lower :=
        le_antisymm (left.lower_le_of_covers ((same _).mpr right.covers_lower))
          (right.lower_le_of_covers ((same _).mp left.covers_lower))
      have upper : head.upper = head'.upper :=
        le_antisymm (right.upper_le_upper lower same)
          (left.upper_le_upper lower.symm fun point => (same point).symm)
      have heads : head = head' := by
        cases head
        cases head'
        exact congrArg₂ Interval.mk lower upper
      subst heads
      have tails : ∀ point, Covers rest point ↔ Covers rest' point := by
        intro point
        constructor
        · intro covered
          rcases (covers_cons _ _ _).mp ((same point).mp
            ((covers_cons _ _ _).mpr (Or.inr covered))) with inside | tail
          · exact absurd inside.2 (lt_asymm (left.upper_lt_of_covers_tail covered))
          · exact tail
        · intro covered
          rcases (covers_cons _ _ _).mp ((same point).mpr
            ((covers_cons _ _ _).mpr (Or.inr covered))) with inside | tail
          · exact absurd inside.2 (lt_asymm (right.upper_lt_of_covers_tail covered))
          · exact tail
      rw [ih ((separated_cons _ _).mp left).2.2 ((separated_cons _ _).mp right).2.2 tails]

/-- Replacing one interval by separated pieces inside it keeps the list separated. -/
theorem Separated.replace {before after pieces : List (Interval Point)}
    (separated : Separated (before ++ interval :: after)) (inner : Separated pieces)
    (inside : ∀ piece ∈ pieces, interval.lower ≤ piece.lower ∧ piece.upper ≤ interval.upper) :
    Separated (before ++ (pieces ++ after)) := by
  obtain ⟨left, right, cross⟩ := (separated_append _ _).mp separated
  obtain ⟨_, ahead, tail⟩ := (separated_cons _ _).mp right
  refine (separated_append _ _).mpr ⟨left, (separated_append _ _).mpr ⟨inner, tail, ?_⟩, ?_⟩
  · intro piece mem other otherMember
    exact lt_of_le_of_lt (inside piece mem).2 (ahead other otherMember)
  · intro first firstMember other otherMember
    rcases mem_append.mp otherMember with inPieces | inAfter
    · exact lt_of_lt_of_le (cross first firstMember interval mem_cons_self)
        (inside other inPieces).1
    · exact cross first firstMember other (mem_cons_of_mem _ inAfter)

/-- A convex piece of the covered set lies in a single interval. -/
theorem Separated.exists_interval_of_convex {intervals : List (Interval Point)}
    (separated : Separated intervals) {lower upper : Point} (pos : lower < upper)
    (covered : ∀ point, lower ≤ point → point < upper → Covers intervals point) :
    ∃ interval ∈ intervals, interval.lower ≤ lower ∧ upper ≤ interval.upper := by
  induction intervals with
  | nil => exact absurd (covered lower le_rfl pos) (covers_nil _)
  | cons head rest ih =>
    rcases (covers_cons _ _ _).mp (covered lower le_rfl pos) with inside | tail
    · refine ⟨head, mem_cons_self, inside.1, ?_⟩
      by_contra beyond
      exact separated.not_covers_upper
        (covered head.upper inside.2.le (lt_of_not_ge beyond))
    · have pastHead : head.upper < lower := separated.upper_lt_of_covers_tail tail
      obtain ⟨interval, mem, bounds⟩ := ih
        ((separated_cons _ _).mp separated).2.2 fun point above below => by
          rcases (covers_cons _ _ _).mp (covered point above below) with inside | later
          · exact absurd inside.2 (not_lt_of_ge ((le_of_lt pastHead).trans above))
          · exact later
      exact ⟨interval, mem_cons_of_mem _ mem, bounds⟩

end NpuPlugin.Intervals
