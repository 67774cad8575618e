/-
This file develops lists of spans on a line that lie one behind the other, which cover everything
from the start of the first one to the end of the last one, and boxes of coordinates: what holds on
each axis of each coordinate of a box is what holds on each axis apart.
-/

import Mathlib.Algebra.BigOperators.Group.List.Basic
import Mathlib.Algebra.Order.Ring.Int

namespace NpuPlugin.Spans

open List

/-- A part of a line: where it begins and how long it is. -/
structure Span where
  offset : Int
  extent : Int
deriving DecidableEq, Repr

def Span.Contains (span : Span) (point : Int) : Prop :=
  span.offset ≤ point ∧ point < span.offset + span.extent

variable {span : Span} {start : Int} {extents : List Int}

theorem Span.bounds_of_contains {stop : Int} (pos : 0 < span.extent)
    (within : ∀ point, span.Contains point → start ≤ point ∧ point < stop) :
    start ≤ span.offset ∧ span.offset + span.extent ≤ stop := by
  have first := within span.offset ⟨le_rfl, by omega⟩
  have last := within (span.offset + span.extent - 1) ⟨by omega, by omega⟩
  omega

/-- Spans that are not empty, one behind the other from a start to a stop. -/
inductive Consecutive : Int → List Span → Int → Prop
  | nil (start : Int) : Consecutive start [] start
  | cons {start stop extent : Int} {rest : List Span} (pos : 0 < extent)
      (later : Consecutive (start + extent) rest stop) :
      Consecutive start (⟨start, extent⟩ :: rest) stop

/-- The spans with the given extents. -/
def place : Int → List Int → List Span
  | _, [] => []
  | start, extent :: rest => ⟨start, extent⟩ :: place (start + extent) rest

theorem length_place (start : Int) (extents : List Int) :
    (place start extents).length = extents.length := by
  induction extents generalizing start with
  | nil => rfl
  | cons extent rest ih => rw [place, length_cons, length_cons, ih]

theorem extent_mem_of_mem_place (mem : span ∈ place start extents) : span.extent ∈ extents := by
  induction extents generalizing start with
  | nil => cases mem
  | cons extent rest ih =>
    rcases mem_cons.mp mem with same | later
    · rw [same]
      exact mem_cons_self
    · exact mem_cons_of_mem _ (ih later)

/-- A span that does not end where all of them end is not the last one. -/
theorem extent_mem_dropLast (mem : span ∈ place start extents)
    (before : span.offset + span.extent ≠ start + extents.sum) :
    span.extent ∈ extents.dropLast := by
  induction extents generalizing start with
  | nil => cases mem
  | cons extent rest ih =>
    cases rest with
    | nil =>
      rw [place, place, mem_singleton] at mem
      rw [mem, sum_singleton] at before
      exact absurd rfl before
    | cons second others =>
      rw [dropLast_cons_of_ne_nil (cons_ne_nil _ _)]
      rcases mem_cons.mp mem with same | later
      · rw [same]
        exact mem_cons_self
      · refine mem_cons_of_mem _ (ih later ?_)
        rw [sum_cons, ← add_assoc] at before
        exact before

theorem place_append (start : Int) (front back : List Int) :
    place start (front ++ back) = place start front ++ place (start + front.sum) back := by
  induction front generalizing start with
  | nil => rw [nil_append, place, nil_append, sum_nil, add_zero]
  | cons extent rest ih => rw [cons_append, place, place, ih, cons_append, sum_cons, add_assoc]

theorem place_consecutive (start : Int) (pos : ∀ extent ∈ extents, 0 < extent) :
    Consecutive start (place start extents) (start + extents.sum) := by
  induction extents generalizing start with
  | nil =>
    rw [place, sum_nil, add_zero]
    exact .nil start
  | cons extent rest ih =>
    rw [place, sum_cons, ← add_assoc]
    exact .cons (pos extent mem_cons_self)
      (ih _ (forall_mem_cons.mp pos).2)

namespace Consecutive

variable {start stop : Int} {spans : List Span} {span : Span}

section

variable (consecutive : Consecutive start spans stop)
include consecutive

theorem bounds (mem : span ∈ spans) :
    start ≤ span.offset ∧ 0 < span.extent ∧ span.offset + span.extent ≤ stop := by
  have forward : ∀ {start stop : Int} {spans : List Span}, Consecutive start spans stop →
      start ≤ stop := by
    intro start stop spans consecutive
    induction consecutive with
    | nil => exact le_rfl
    | cons pos _ ih => exact (le_add_of_nonneg_right pos.le).trans ih
  induction consecutive with
  | nil => cases mem
  | cons pos later ih =>
    rcases mem_cons.mp mem with same | inRest
    · rw [same]
      exact ⟨le_rfl, pos, forward later⟩
    · obtain ⟨above, extent, below⟩ := ih inRest
      exact ⟨(le_add_of_nonneg_right pos.le).trans above, extent, below⟩

theorem disjoint :
    spans.Pairwise fun first second =>
      ∀ point, ¬ (first.Contains point ∧ second.Contains point) := by
  induction consecutive with
  | nil => exact List.Pairwise.nil
  | cons pos later ih =>
    refine pairwise_cons.mpr ⟨fun other mem point both => ?_, ih⟩
    exact absurd ((later.bounds mem).1.trans both.2.1) both.1.2.not_ge

theorem covers {point : Int} (above : start ≤ point) (below : point < stop) :
    ∃ span ∈ spans, span.Contains point := by
  induction consecutive with
  | nil => exact absurd above below.not_ge
  | @cons start stop extent rest pos later ih =>
    rcases lt_or_ge point (start + extent) with here | behind
    · exact ⟨_, mem_cons_self, above, here⟩
    · obtain ⟨span, mem, inside⟩ := ih behind below
      exact ⟨span, mem_cons_of_mem _ mem, inside⟩

/-- Spans that have a point in common are the same. -/
theorem eq_of_contains {first second : Span} (firstMember : first ∈ spans)
    (secondMember : second ∈ spans) {point : Int} (inFirst : first.Contains point)
    (inSecond : second.Contains point) : first = second := by
  induction consecutive with
  | nil => cases firstMember
  | cons pos later ih =>
    rcases mem_cons.mp firstMember with same | firstLater
    · rcases mem_cons.mp secondMember with equal | secondLater
      · rw [same, equal]
      · rw [same] at inFirst
        exact absurd ((later.bounds secondLater).1.trans inSecond.1) inFirst.2.not_ge
    · rcases mem_cons.mp secondMember with equal | secondLater
      · rw [equal] at inSecond
        exact absurd ((later.bounds firstLater).1.trans inFirst.1) inSecond.2.not_ge
      · exact ih firstLater secondLater

theorem offset_head (first : spans[0]? = some span) : span.offset = start := by
  cases consecutive with
  | nil => cases first
  | cons _ _ => exact (Option.some.inj first) ▸ rfl

theorem stop_getLast (some : spans ≠ []) :
    (spans.getLast some).offset + (spans.getLast some).extent = stop := by
  induction consecutive with
  | nil => exact absurd rfl some
  | cons pos later ih =>
    cases later with
    | nil => rfl
    | cons _ _ => exact ih (cons_ne_nil _ _)

theorem eq_of_length_one (single : spans.length = 1) (mem : span ∈ spans) :
    span = ⟨start, stop - start⟩ := by
  cases consecutive with
  | nil => cases mem
  | cons pos later =>
    cases later with
    | nil => rw [mem_singleton.mp mem, add_sub_cancel_left]
    | cons _ _ => cases single

end

end Consecutive

end NpuPlugin.Spans

namespace NpuPlugin.Boxes

open Function

variable {Axis : Type}

/-- A coordinate of a box, counted from the corner of the box. -/
def Inside (extents coordinate : Axis → Int) : Prop :=
  ∀ axis, 0 ≤ coordinate axis ∧ coordinate axis < extents axis

/-- A box that is not empty, inside of a whole one. -/
structure IsPart (whole offset extents : Axis → Int) : Prop where
  offset_nonneg : ∀ axis, 0 ≤ offset axis
  extents_pos : ∀ axis, 0 < extents axis
  end_le : ∀ axis, offset axis + extents axis ≤ whole axis

variable {extents : Axis → Int}

/-- Every position of every axis is that of a coordinate of the box. -/
theorem exists_inside_at [DecidableEq Axis] (nonempty : ∀ axis, 0 < extents axis) {axis : Axis}
    {position : Int} (nonneg : 0 ≤ position) (below : position < extents axis) :
    ∃ coordinate, Inside extents coordinate ∧ coordinate axis = position := by
  refine ⟨update 0 axis position, ?_, update_self ..⟩
  intro other
  by_cases same : other = axis
  · rw [same, update_self]
    exact ⟨nonneg, below⟩
  · rw [update_of_ne same]
    exact ⟨le_refl 0, nonempty other⟩

/-- What holds on every axis of every coordinate of a box holds on every axis apart. -/
theorem forall_inside_iff [DecidableEq Axis] (nonempty : ∀ axis, 0 < extents axis)
    {holds : Axis → Int → Prop} :
    (∀ coordinate, Inside extents coordinate → ∀ axis, holds axis (coordinate axis)) ↔
      ∀ axis position, 0 ≤ position → position < extents axis → holds axis position := by
  constructor
  · intro whole axis position nonneg below
    obtain ⟨coordinate, inside, at_axis⟩ := exists_inside_at nonempty nonneg below
    exact at_axis ▸ whole coordinate inside axis
  · intro apart coordinate inside axis
    exact apart axis (coordinate axis) (inside axis).1 (inside axis).2

end NpuPlugin.Boxes
