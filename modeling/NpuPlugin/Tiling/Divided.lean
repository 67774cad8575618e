/-
This file proves that the tiles divide the shape: they are disjoint, not empty and cover it, as many
as the divisors say, also for the conversion from YUV to RGB with its tiles of even sizes.
-/

import Mathlib.Algebra.BigOperators.Ring.Finset
import Mathlib.Data.List.GetD
import NpuPlugin.Tiling.Model

namespace NpuPlugin.Tiling

open Except Int List Run Spans

/-! ### Tiles as boxes -/

def TileInfo.span (tile : TileInfo) (dimension : Nat) : Span :=
  ⟨tile.offsets.getD dimension 0, tile.shape.getD dimension 0⟩

/-- A point has a coordinate for each dimension. -/
def TileInfo.Contains (tile : TileInfo) (point : Nat → Int) : Prop :=
  ∀ dimension < tile.shape.length, (tile.span dimension).Contains (point dimension)

variable {dimensions : List Nat} {first second tile : TileInfo} {dimension : Nat}

theorem getD_eq_of_getElem?_eq {first second : List Int}
    (same : first[dimension]? = second[dimension]?) :
    first.getD dimension 0 = second.getD dimension 0 := by
  rw [getD_eq_getElem?_getD, getD_eq_getElem?_getD, same]

theorem SameOff.span (same : SameOff dimensions first second) (outside : dimension ∉ dimensions) :
    first.span dimension = second.span dimension := by
  unfold TileInfo.span
  rw [getD_eq_of_getElem?_eq (same.shape.2 dimension outside),
    getD_eq_of_getElem?_eq (same.offsets.2 dimension outside)]

theorem span_assign {extent offset total : Int} (shape : dimension < tile.shape.length)
    (offsets : dimension < tile.offsets.length) :
    (tile.assign dimension extent offset total).span dimension = ⟨offset, extent⟩ := by
  unfold TileInfo.span TileInfo.assign
  rw [getD_eq_getElem?_getD, getD_eq_getElem?_getD, getElem?_set_self offsets,
    getElem?_set_self shape]
  rfl

/-! ### The tiles of the axes -/

/-- The dimensions of the axes are different ones of the tile. -/
structure Fit (axes : List Axis) (tile : TileInfo) : Prop where
  distinct : (axes.map Axis.dimension).Nodup
  shape : ∀ axis ∈ axes, axis.dimension < tile.shape.length
  offsets : ∀ axis ∈ axes, axis.dimension < tile.offsets.length

theorem Fit.rest {axis : Axis} {rest : List Axis} (fit : Fit (axis :: rest) tile)
    (extent offset total : Int) :
    axis.dimension ∉ rest.map Axis.dimension ∧
      Fit rest (tile.assign axis.dimension extent offset total) := by
  have distinct := nodup_cons.mp fit.distinct
  refine ⟨distinct.1, distinct.2, fun other mem => ?_, fun other mem => ?_⟩
  · exact (fit.shape other (mem_cons_of_mem _ mem)).trans_eq length_set.symm
  · exact (fit.offsets other (mem_cons_of_mem _ mem)).trans_eq length_set.symm

variable {axes : List Axis} {stored : TileInfo}

theorem mem_tilesOf (fit : Fit axes tile) (mem : stored ∈ tilesOf axes tile) :
    SameOff (axes.map Axis.dimension) stored tile ∧
      ∀ axis ∈ axes, stored.span axis.dimension ∈ axis.spans := by
  induction axes generalizing tile with
  | nil =>
    rw [tilesOf, mem_singleton] at mem
    rw [mem]
    exact ⟨.refl _ _, forall_mem_nil _⟩
  | cons axis rest ih =>
    rw [tilesOf, mem_flatMap] at mem
    obtain ⟨span, inSpans, inRest⟩ := mem
    obtain ⟨fresh, fitRest⟩ := fit.rest span.extent span.offset axis.total
    obtain ⟨same, each⟩ := ih fitRest inRest
    refine ⟨same.weaken.trans sameOff_assign, fun other otherMember => ?_⟩
    rcases mem_cons.mp otherMember with here | later
    · rw [here, same.span fresh, span_assign (fit.shape axis mem_cons_self)
        (fit.offsets axis mem_cons_self)]
      exact inSpans
    · exact each other later

theorem axis_of_mem_tilesOf (distinct : (axes.map Axis.dimension).Nodup)
    (inside : ∀ axis ∈ axes, axis.dimension < tile.axis.length) (mem : stored ∈ tilesOf axes tile) :
    AgreeOff (axes.map Axis.dimension) stored.axis tile.axis ∧
      ∀ axis ∈ axes, stored.axis.getD axis.dimension 0 = axis.total := by
  induction axes generalizing tile with
  | nil =>
    rw [tilesOf, mem_singleton] at mem
    rw [mem]
    exact ⟨.refl _ _, forall_mem_nil _⟩
  | cons axis rest ih =>
    rw [tilesOf, mem_flatMap] at mem
    obtain ⟨span, -, inRest⟩ := mem
    obtain ⟨fresh, distinctRest⟩ := nodup_cons.mp distinct
    obtain ⟨agree, each⟩ := ih distinctRest (fun other otherMember =>
      (inside other (mem_cons_of_mem _ otherMember)).trans_eq length_set.symm) inRest
    refine ⟨agree.weaken.trans agreeOff_set_left, fun other otherMember => ?_⟩
    rcases mem_cons.mp otherMember with here | later
    · have set := getElem?_set_self (inside axis mem_cons_self) (a := axis.total)
      rw [here, getD_eq_getElem?_getD, agree.2 axis.dimension fresh]
      exact congrArg (Option.getD · 0) set
    · exact each other later

theorem length_tilesOf (axes : List Axis) (tile : TileInfo) :
    (tilesOf axes tile).length = (axes.map fun axis => axis.spans.length).prod := by
  induction axes generalizing tile with
  | nil => rfl
  | cons axis rest ih =>
    rw [tilesOf, length_flatMap, map_cons, prod_cons]
    simp only [ih, map_const', sum_replicate_nat]

def Apart (dimensions : List Nat) (first second : TileInfo) : Prop :=
  ∃ dimension ∈ dimensions, ∀ value,
    ¬ ((first.span dimension).Contains value ∧ (second.span dimension).Contains value)

theorem tilesOf_apart (fit : Fit axes tile)
    (disjoint : ∀ axis ∈ axes, axis.spans.Pairwise fun first second =>
      ∀ value, ¬ (first.Contains value ∧ second.Contains value)) :
    (tilesOf axes tile).Pairwise (Apart (axes.map Axis.dimension)) := by
  induction axes generalizing tile with
  | nil => exact pairwise_singleton _ _
  | cons axis rest ih =>
    rw [tilesOf, pairwise_flatMap]
    refine ⟨fun span _ => ?_, (disjoint axis mem_cons_self).imp fun apart => ?_⟩
    · refine (ih (fit.rest span.extent span.offset axis.total).2
        (forall_mem_cons.mp disjoint).2).imp ?_
      rintro first second ⟨dimension, mem, apart⟩
      exact ⟨dimension, mem_cons_of_mem _ mem, apart⟩
    · -- Tiles of different spans are apart in this dimension.
      intro first firstMember second secondMember
      have spanOf : ∀ {span : Span} {stored : TileInfo},
          stored ∈ tilesOf rest (tile.assign axis.dimension span.extent span.offset axis.total) →
          stored.span axis.dimension = span := by
        intro span stored mem
        obtain ⟨fresh, fitRest⟩ := fit.rest span.extent span.offset axis.total
        rw [(mem_tilesOf fitRest mem).1.span fresh, span_assign
          (fit.shape axis mem_cons_self) (fit.offsets axis mem_cons_self)]
      refine ⟨axis.dimension, mem_cons_self, fun value => ?_⟩
      rw [spanOf firstMember, spanOf secondMember]
      exact apart value

theorem tilesOf_covers (fit : Fit axes tile) {point : Nat → Int}
    (each : ∀ axis ∈ axes, ∃ span ∈ axis.spans, span.Contains (point axis.dimension)) :
    ∃ stored ∈ tilesOf axes tile, ∀ axis ∈ axes,
      (stored.span axis.dimension).Contains (point axis.dimension) := by
  induction axes generalizing tile with
  | nil => exact ⟨tile, mem_singleton_self tile, forall_mem_nil _⟩
  | cons axis rest ih =>
    obtain ⟨span, inSpans, inside⟩ := each axis mem_cons_self
    obtain ⟨fresh, fitRest⟩ := fit.rest span.extent span.offset axis.total
    obtain ⟨stored, mem, contains⟩ := ih fitRest (forall_mem_cons.mp each).2
    refine ⟨stored, ?_, fun other otherMember => ?_⟩
    · rw [tilesOf]
      exact mem_flatMap.mpr ⟨span, inSpans, mem⟩
    · rcases mem_cons.mp otherMember with here | later
      · rw [here, (mem_tilesOf fitRest mem).1.span fresh, span_assign
          (fit.shape axis mem_cons_self) (fit.offsets axis mem_cons_self)]
        exact inside
      · exact contains other later

section Whole

variable {shape : List Int} (fit : Fit axes tile)
  (consecutive : ∀ axis ∈ axes, Consecutive 0 axis.spans (shape.getD axis.dimension 0))
include fit consecutive

theorem tilesOf_disjoint : (tilesOf axes tile).Pairwise fun first second =>
    ∀ point, ¬ (first.Contains point ∧ second.Contains point) := by
  refine (tilesOf_apart fit fun axis mem => (consecutive axis mem).disjoint).imp_of_mem ?_
  rintro first second firstMember secondMember ⟨dimension, mem, apart⟩ point both
  obtain ⟨axis, isAxis, rfl⟩ := mem_map.mp mem
  have inside : ∀ {stored : TileInfo}, stored ∈ tilesOf axes tile →
      axis.dimension < stored.shape.length := fun mem =>
    (fit.shape axis isAxis).trans_eq (mem_tilesOf fit mem).1.shape.1.symm
  exact apart _ ⟨both.1 _ (inside firstMember), both.2 _ (inside secondMember)⟩

/-- The tiles cover the shape when the tile that is divided has the other dimensions whole. -/
theorem exists_contains_iff (rank : tile.shape.length = shape.length)
    (whole : ∀ dimension < shape.length, dimension ∉ axes.map Axis.dimension →
      tile.span dimension = ⟨0, shape.getD dimension 0⟩) {point : Nat → Int} :
    (∃ stored ∈ tilesOf axes tile, stored.Contains point) ↔
      ∀ dimension < shape.length, 0 ≤ point dimension ∧
        point dimension < shape.getD dimension 0 := by
  constructor
  · rintro ⟨stored, mem, inside⟩ dimension small
    obtain ⟨same, each⟩ := mem_tilesOf fit mem
    have here := inside dimension (small.trans_eq (rank.symm.trans same.shape.1.symm))
    by_cases isAxis : dimension ∈ axes.map Axis.dimension
    · obtain ⟨axis, axisMember, rfl⟩ := mem_map.mp isAxis
      obtain ⟨above, -, below⟩ := (consecutive axis axisMember).bounds (each axis axisMember)
      exact ⟨above.trans here.1, here.2.trans_le below⟩
    · rw [same.span isAxis, whole dimension small isAxis] at here
      exact ⟨here.1, here.2.trans_eq (zero_add _)⟩
  · intro inside
    obtain ⟨stored, mem, contains⟩ := tilesOf_covers fit fun axis mem =>
      have here := inside _ ((fit.shape axis mem).trans_eq rank)
      (consecutive axis mem).covers here.1 here.2
    have same := (mem_tilesOf fit mem).1
    refine ⟨stored, mem, fun dimension small => ?_⟩
    rw [same.shape.1, rank] at small
    by_cases isAxis : dimension ∈ axes.map Axis.dimension
    · obtain ⟨axis, axisMember, rfl⟩ := mem_map.mp isAxis
      exact contains axis axisMember
    · rw [same.span isAxis, whole dimension small isAxis]
      exact ⟨(inside dimension small).1, (inside dimension small).2.trans_eq (zero_add _).symm⟩

end Whole

/-! ### The order of the dimensions -/

/-- The dimension at an index. -/
def orderOf (unrollSpatialFirst : Bool) (dimensionIndex : Nat) : Nat :=
  if unrollSpatialFirst then [0, 2, 3, 1].getD dimensionIndex 0 else dimensionIndex

/-- NHWC is an order of four dimensions; the first of them comes first. -/
def Unrollable (unrollSpatialFirst : Bool) (rank : Nat) : Prop :=
  unrollSpatialFirst = true → rank = 1 ∨ rank = 4

variable {unrollSpatialFirst : Bool} {rank : Nat}

theorem orderOf_perm (unrollable : Unrollable unrollSpatialFirst rank) :
    ((List.range rank).map (orderOf unrollSpatialFirst)).Perm (List.range rank) := by
  cases unrollSpatialFirst with
  | false => exact .of_eq (map_id' (range rank))
  | true =>
    rcases unrollable rfl with one | four
    · rw [one]
      decide
    · rw [four]
      decide

theorem dimensionAt_eq {dimensionIndex : Nat} (unrollable : Unrollable unrollSpatialFirst rank)
    (inside : dimensionIndex < rank) :
    dimensionAt unrollSpatialFirst dimensionIndex =
      .ok (orderOf unrollSpatialFirst dimensionIndex) := by
  cases unrollSpatialFirst with
  | false => rfl
  | true =>
    have small : dimensionIndex < 4 := by rcases unrollable rfl with one | four <;> omega
    match dimensionIndex, small with
    | 0, _ => rfl
    | 1, _ => rfl
    | 2, _ => rfl
    | 3, _ => rfl

/-! ### The whole division -/

/-- What is asked of the tiles of a shape. -/
structure Divides (divisors shape alignment : List Int) (tiles : OutputTiling) : Prop where
  count : (tiles.length : Int) = divisors.prod
  rank : ∀ tile ∈ tiles, tile.shape.length = shape.length
  positive : ∀ tile ∈ tiles, ∀ dimension < shape.length, 0 < (tile.span dimension).extent
  inside : ∀ tile ∈ tiles, ∀ dimension < shape.length, 0 ≤ (tile.span dimension).offset ∧
    (tile.span dimension).offset + (tile.span dimension).extent ≤ shape.getD dimension 0
  disjoint : tiles.Pairwise fun first second =>
    ∀ point, ¬ (first.Contains point ∧ second.Contains point)
  covers : ∀ point : Nat → Int, (∀ dimension < shape.length, 0 ≤ point dimension ∧
    point dimension < shape.getD dimension 0) → ∃ tile ∈ tiles, tile.Contains point
  aligned : ∀ tile ∈ tiles, ∀ dimension < shape.length, 1 < alignment.getD dimension 1 →
    (tile.span dimension).offset + (tile.span dimension).extent ≠ shape.getD dimension 0 →
    alignment.getD dimension 1 ∣ (tile.span dimension).extent

section Whole

variable {divisors shape alignment : List Int} {unrollSpatialFirst : Bool}

/-- The axis of a dimension. -/
def axisOf (divisors shape alignment : List Int) (dimension : Nat) : Axis :=
  ⟨dimension, divisors.getD dimension 0,
    match divideTileSizeAndInterval dimension divisors shape alignment with
    | .ok (tileSize, remainderTileSize, tileSizeInterval) => place 0 (extentsOf tileSize
        remainderTileSize tileSizeInterval (divisors.getD dimension 0).toNat)
    | .error _ => []⟩

/-- A dimension of the shape that cannot be divided. -/
def IndivisibleAt (divisors shape alignment : List Int) (dimension : Nat) : Prop :=
  Indivisible (shape.getD dimension 0) (divisors.getD dimension 0) (alignment.getD dimension 1)

instance (divisors shape alignment : List Int) (dimension : Nat) :
    Decidable (IndivisibleAt divisors shape alignment dimension) :=
  inferInstanceAs (Decidable (Indivisible _ _ _))

/-- What is required of the arguments: they have one rank, and there are tiles in each dimension. -/
structure Divisible (divisors shape alignment : List Int) : Prop where
  divisors_length : divisors.length = shape.length
  alignment_length : alignment.length = shape.length
  positive : ∀ divisor ∈ divisors, 1 ≤ divisor

theorem Divisible.cases (divisible : Divisible divisors shape alignment)
    (inside : dimension < shape.length) :
    (IndivisibleAt divisors shape alignment dimension ∧
        divideTileSizeAndInterval dimension divisors shape alignment = .error .failure) ∨
      (¬ IndivisibleAt divisors shape alignment dimension ∧
        Divided divisors shape alignment (axisOf divisors shape alignment dimension) ∧
        ∃ extents, (axisOf divisors shape alignment dimension).spans = place 0 extents ∧
          Extents (shape.getD dimension 0) (divisors.getD dimension 0) (alignment.getD dimension 1)
            extents) := by
  have found : ∀ (values : List Int) (default : Int), values.length = shape.length →
      values[dimension]? = some (values.getD dimension default) := by
    intro values default length
    rw [getD_eq_getElem?_getD, getElem?_eq_getElem (inside.trans_eq length.symm), Option.getD_some]
  have divisorFound := found divisors 0 divisible.divisors_length
  have cases := divideTileSizeAndInterval_cases (found shape 0 rfl) divisorFound
    (found alignment 1 divisible.alignment_length)
    (divisible.positive _ (mem_of_getElem? divisorFound))
  refine cases.imp_right fun divided => ?_
  obtain ⟨divides, tileSize, remainderTileSize, tileSizeInterval, res, extents⟩ := divided
  have spans : (axisOf divisors shape alignment dimension).spans = place 0 (extentsOf tileSize
      remainderTileSize tileSizeInterval (divisors.getD dimension 0).toNat) := by
    unfold axisOf
    rw [res]
  exact ⟨divides, ⟨divisorFound, _, _, _, res, spans⟩, _, spans, extents⟩

def axesOf (divisors shape alignment : List Int) (unrollSpatialFirst : Bool) : List Axis :=
  (List.range shape.length).map fun dimensionIndex =>
    axisOf divisors shape alignment (orderOf unrollSpatialFirst dimensionIndex)

theorem orderOf_lt {dimensionIndex : Nat} (unrollable : Unrollable unrollSpatialFirst rank)
    (inside : dimensionIndex < rank) : orderOf unrollSpatialFirst dimensionIndex < rank :=
  mem_range.mp ((orderOf_perm unrollable).mem_iff.mp (mem_map_of_mem (mem_range.mpr inside)))

theorem map_dimension_axesOf :
    (axesOf divisors shape alignment unrollSpatialFirst).map Axis.dimension =
      (List.range shape.length).map (orderOf unrollSpatialFirst) := by
  unfold axesOf
  rw [map_map]
  rfl

theorem mem_axesOf (unrollable : Unrollable unrollSpatialFirst shape.length) {axis : Axis} :
    axis ∈ axesOf divisors shape alignment unrollSpatialFirst ↔
      ∃ dimension < shape.length, axis = axisOf divisors shape alignment dimension := by
  have perm := orderOf_perm unrollable
  have split : axesOf divisors shape alignment unrollSpatialFirst =
      ((List.range shape.length).map (orderOf unrollSpatialFirst)).map
        (axisOf divisors shape alignment) := by
    rw [map_map]
    rfl
  rw [split, (perm.map _).mem_iff, mem_map]
  simp only [mem_range, eq_comm]

theorem prod_length_axesOf (unrollable : Unrollable unrollSpatialFirst shape.length)
    (length : divisors.length = shape.length) (each : ∀ dimension < shape.length,
      ((axisOf divisors shape alignment dimension).spans.length : Int) =
        divisors.getD dimension 0) :
    ((((axesOf divisors shape alignment unrollSpatialFirst).map
      fun axis => axis.spans.length).prod : Nat) : Int) = divisors.prod := by
  have all : divisors = (List.range shape.length).map fun dimension => divisors.getD
    dimension 0 := by
    refine ext_getElem (by rw [length_map, length_range, length]) ?_
    intro index inside _
    rw [getElem_map, getElem_range, getD_eq_getElem _ _ inside]
  have split : (axesOf divisors shape alignment unrollSpatialFirst).map
      (fun axis => (axis.spans.length : Int)) =
        ((List.range shape.length).map (orderOf unrollSpatialFirst)).map
          fun dimension => divisors.getD dimension 0 := by
    unfold axesOf
    rw [map_map, map_map]
    exact map_congr_left fun index inside => each _ (orderOf_lt unrollable (mem_range.mp inside))
  rw [Nat.cast_list_prod, map_map]
  refine (congrArg prod split).trans ?_
  rw [((orderOf_perm unrollable).map _).prod_eq, ← all]

theorem divideTiles_fails (divisible : Divisible divisors shape alignment)
    (unrollable : Unrollable unrollSpatialFirst shape.length) (left dimensionIndex : Nat)
    (bound : dimensionIndex + left < shape.length)
    (fails : ∃ index, dimensionIndex ≤ index ∧ index ≤ dimensionIndex + left ∧
      IndivisibleAt divisors shape alignment (orderOf unrollSpatialFirst index)) :
    Fails (divideTiles divisors shape alignment unrollSpatialFirst left dimensionIndex) := by
  induction left generalizing dimensionIndex with
  | zero =>
    obtain ⟨index, above, below, indivisible⟩ := fails
    rw [← le_antisymm above below] at indivisible
    obtain ⟨_, res⟩ := (divisible.cases (orderOf_lt unrollable bound)).resolve_right
      fun divides => divides.1 indivisible
    exact divideDimension_fails_here (dimensionAt_eq unrollable bound) res
  | succ left ih =>
    have inside : dimensionIndex < shape.length := by omega
    have found := dimensionAt_eq unrollable inside
    rcases divisible.cases (orderOf_lt unrollable inside) with ⟨_, res⟩ | ⟨divides, divided, _⟩
    · exact divideDimension_fails_here found res
    · obtain ⟨index, above, below, indivisible⟩ := fails
      have later : dimensionIndex + 1 ≤ index := by
        refine Nat.lt_of_le_of_ne above fun same => ?_
        rw [same] at divides
        exact divides indivisible
      refine divideDimension_fails (ih (dimensionIndex + 1) (by omega)
        ⟨index, later, by omega, indivisible⟩) found divided ?_
      exact divisible.positive _ (mem_of_getElem? divided.found)

theorem fit_axesOf (unrollable : Unrollable unrollSpatialFirst shape.length) {tile : TileInfo}
    (shapeLength : tile.shape.length = shape.length)
    (offsetsLength : tile.offsets.length = shape.length) :
    Fit (axesOf divisors shape alignment unrollSpatialFirst) tile := by
  refine ⟨?_, fun axis mem => ?_, fun axis mem => ?_⟩
  · rw [map_dimension_axesOf]
    exact (orderOf_perm unrollable).nodup_iff.mpr nodup_range
  · obtain ⟨dimension, inside, same⟩ := (mem_axesOf unrollable).mp mem
    rw [same]
    exact inside.trans_eq shapeLength.symm
  · obtain ⟨dimension, inside, same⟩ := (mem_axesOf unrollable).mp mem
    rw [same]
    exact inside.trans_eq offsetsLength.symm

theorem Divisible.spans (divisible : Divisible divisors shape alignment)
    (inside : dimension < shape.length)
    (divides : ¬ IndivisibleAt divisors shape alignment dimension) :
    Consecutive 0 (axisOf divisors shape alignment dimension).spans (shape.getD dimension 0) ∧
      ((axisOf divisors shape alignment dimension).spans.length : Int) =
        divisors.getD dimension 0 := by
  obtain ⟨extents, spans, of⟩ :=
    ((divisible.cases inside).resolve_left fun fails => divides fails.1).2.2
  rw [spans, length_place]
  refine ⟨?_, of.length⟩
  rw [← of.sum, ← zero_add extents.sum]
  exact place_consecutive 0 of.positive

theorem axesOf_divides (divisible : Divisible divisors shape alignment)
    (unrollable : Unrollable unrollSpatialFirst shape.length)
    (each : ∀ dimension < shape.length, ¬ IndivisibleAt divisors shape alignment dimension)
    (shapeLength : tile.shape.length = shape.length)
    (offsetsLength : tile.offsets.length = shape.length) :
    Divides divisors shape alignment
      (tilesOf (axesOf divisors shape alignment unrollSpatialFirst) tile) := by
  let axes := axesOf divisors shape alignment unrollSpatialFirst
  have extents : ∀ dimension < shape.length, ∃ extents,
      (axisOf divisors shape alignment dimension).spans = place 0 extents ∧
        Extents (shape.getD dimension 0) (divisors.getD dimension 0) (alignment.getD dimension 1)
          extents := fun dimension inside =>
    ((divisible.cases inside).resolve_left fun fails => each dimension inside fails.1).2.2
  have consecutive : ∀ dimension < shape.length, Consecutive 0
      (axisOf divisors shape alignment dimension).spans (shape.getD dimension 0) :=
    fun dimension inside => (divisible.spans inside (each dimension inside)).1
  have fit : Fit axes tile := fit_axesOf unrollable shapeLength offsetsLength
  have axisSpans : ∀ axis ∈ axes, Consecutive 0 axis.spans (shape.getD axis.dimension 0) := by
    intro axis mem
    obtain ⟨dimension, inside, rfl⟩ := (mem_axesOf unrollable).mp mem
    exact consecutive dimension inside
  have spanOf : ∀ stored ∈ tilesOf axes tile, ∀ dimension < shape.length,
      stored.span dimension ∈ (axisOf divisors shape alignment dimension).spans :=
    fun stored mem dimension inside => (mem_tilesOf fit mem).2 _
      ((mem_axesOf unrollable).mpr ⟨dimension, inside, rfl⟩)
  have rank : ∀ stored ∈ tilesOf axes tile, stored.shape.length = shape.length :=
    fun stored mem => (mem_tilesOf fit mem).1.shape.1.trans shapeLength
  refine ⟨?_, rank, fun stored mem dimension inside => ?_,
    fun stored mem dimension inside => ?_, ?_, fun point within => ?_,
    fun stored mem dimension inside alignmentPos before => ?_⟩
  · rw [length_tilesOf]
    refine prod_length_axesOf unrollable divisible.divisors_length fun dimension inside => ?_
    obtain ⟨lengths, spans, of⟩ := extents dimension inside
    rw [spans, length_place]
    exact of.length
  · exact ((consecutive dimension inside).bounds (spanOf stored mem dimension inside)).2.1
  · obtain ⟨above, _, below⟩ :=
      (consecutive dimension inside).bounds (spanOf stored mem dimension inside)
    exact ⟨above, below⟩
  · exact tilesOf_disjoint fit axisSpans
  · refine (exists_contains_iff fit axisSpans shapeLength fun dimension inside outside => ?_).mpr
      within
    exact absurd (mem_map.mpr ⟨_, (mem_axesOf unrollable).mpr ⟨dimension, inside, rfl⟩, rfl⟩)
      outside
  · obtain ⟨lengths, spans, of⟩ := extents dimension inside
    have inSpans := spanOf stored mem dimension inside
    rw [spans] at inSpans
    refine of.aligned alignmentPos _ (extent_mem_dropLast inSpans ?_)
    rw [of.sum, zero_add]
    exact before

def ongoingTileOf (rank : Nat) : TileInfo := { TileInfo.ofRank rank with isCompletedTile := true }

theorem fillDividedTiles_eq {alignment : Option (List Int)}
    (divisible : Divisible divisors shape (alignment.getD (List.replicate shape.length 1)))
    (occupied : 0 < shape.length) (unrollable : Unrollable unrollSpatialFirst shape.length)
    (each : ∀ dimension < shape.length, ¬ IndivisibleAt divisors shape
      (alignment.getD (List.replicate shape.length 1)) dimension) :
    fillDividedTiles divisors shape alignment unrollSpatialFirst =
      .ok (tilesOf (axesOf divisors shape (alignment.getD (List.replicate shape.length 1))
        unrollSpatialFirst) (ongoingTileOf divisors.length)) := by
  let alignmentShape := alignment.getD (replicate shape.length 1)
  let axisAt := fun index => axisOf divisors shape alignmentShape
    (orderOf unrollSpatialFirst index)
  have inside : 0 + (divisors.length - 1) < shape.length := by
    rw [divisible.divisors_length]
    omega
  have stores : Stores (axesFrom axisAt (divisors.length - 1) 0) (divideTiles divisors shape
      alignmentShape unrollSpatialFirst (divisors.length - 1) 0) := by
    refine divideTiles_stores (divisors.length - 1) 0 fun index _ below => ?_
    have small : index < shape.length := by omega
    have here := orderOf_lt unrollable small
    exact ⟨dimensionAt_eq unrollable small,
      ((divisible.cases here).resolve_left fun failed => each _ here failed.1).2.1⟩
  have axes : axesFrom axisAt (divisors.length - 1) 0 =
      axesOf divisors shape alignmentShape unrollSpatialFirst := by
    unfold axesFrom axesOf
    rw [range_eq_range', divisible.divisors_length, Nat.sub_add_cancel occupied]
  obtain ⟨last, res, _⟩ := stores [] (ongoingTileOf divisors.length)
  rw [nil_append, axes] at res
  exact Run.ok_bind res _

/-- For every shape that has dimensions, the division fails when one of them is indivisible, and
otherwise the tiles divide the shape. -/
theorem fillDividedTiles_spec {alignment : Option (List Int)}
    (divisible : Divisible divisors shape (alignment.getD (List.replicate shape.length 1)))
    (occupied : 0 < shape.length) (unrollable : Unrollable unrollSpatialFirst shape.length) :
    ((∃ dimension < shape.length, IndivisibleAt divisors shape
          (alignment.getD (List.replicate shape.length 1)) dimension) ∧
        fillDividedTiles divisors shape alignment unrollSpatialFirst = .error .failure) ∨
      (¬ (∃ dimension < shape.length, IndivisibleAt divisors shape
          (alignment.getD (List.replicate shape.length 1)) dimension) ∧
        ∃ tiles, fillDividedTiles divisors shape alignment unrollSpatialFirst = .ok tiles ∧
          Divides divisors shape (alignment.getD (List.replicate shape.length 1)) tiles) := by
  let alignmentShape := alignment.getD (replicate shape.length 1)
  have inside : 0 + (divisors.length - 1) < shape.length := by
    rw [divisible.divisors_length]
    omega
  by_cases fails : ∃ dimension < shape.length, IndivisibleAt divisors shape alignmentShape dimension
  · refine .inl ⟨fails, ?_⟩
    obtain ⟨dimension, small, indivisible⟩ := fails
    have mem : dimension ∈ (List.range shape.length).map (orderOf unrollSpatialFirst) :=
      (orderOf_perm unrollable).mem_iff.mpr (mem_range.mpr small)
    obtain ⟨index, indexSmall, same⟩ := mem_map.mp mem
    rw [mem_range] at indexSmall
    have failed := divideTiles_fails divisible unrollable (divisors.length - 1) 0 inside
      ⟨index, Nat.zero_le _, by rw [divisible.divisors_length]; omega, same ▸ indivisible⟩
    exact Run.error_bind (failed [] (ongoingTileOf divisors.length)) _
  · have each : ∀ dimension < shape.length,
        ¬ IndivisibleAt divisors shape alignmentShape dimension :=
      fun dimension small indivisible => fails ⟨dimension, small, indivisible⟩
    refine .inr ⟨fails, _, fillDividedTiles_eq divisible occupied unrollable each, ?_⟩
    refine axesOf_divides divisible unrollable each ?_ ?_
    · exact length_replicate.trans divisible.divisors_length
    · exact length_replicate.trans divisible.divisors_length

theorem fillDividedTiles_spans {alignment : Option (List Int)}
    (divisible : Divisible divisors shape (alignment.getD (List.replicate shape.length 1)))
    (occupied : 0 < shape.length) (unrollable : Unrollable unrollSpatialFirst shape.length)
    {tiles : OutputTiling}
    (divided : fillDividedTiles divisors shape alignment unrollSpatialFirst = .ok tiles) :
    ∃ spans : Nat → List Span, ∀ dimension < shape.length,
      Consecutive 0 (spans dimension) (shape.getD dimension 0) ∧
        ((spans dimension).length : Int) = divisors.getD dimension 0 ∧
        ∀ tile ∈ tiles, tile.span dimension ∈ spans dimension ∧
          tile.axis.getD dimension 0 = divisors.getD dimension 0 := by
  have each : ∀ dimension < shape.length, ¬ IndivisibleAt divisors shape
      (alignment.getD (replicate shape.length 1)) dimension := by
    rcases fillDividedTiles_spec divisible occupied unrollable with ⟨-, failed⟩ | ⟨divides, -⟩
    · rw [divided] at failed
      cases failed
    · exact fun dimension small indivisible => divides ⟨dimension, small, indivisible⟩
  rw [fillDividedTiles_eq divisible occupied unrollable each] at divided
  obtain rfl := Except.ok.inj divided
  have rank : ∀ values : List Int, values = replicate divisors.length 0 →
      values.length = shape.length := fun values same => by
    rw [same, length_replicate, divisible.divisors_length]
  have fit := @fit_axesOf divisors shape (alignment.getD (replicate shape.length 1))
    unrollSpatialFirst unrollable (ongoingTileOf divisors.length) (rank _ rfl) (rank _ rfl)
  refine ⟨fun dimension => (axisOf divisors shape (alignment.getD (replicate shape.length 1))
    dimension).spans, fun dimension inside => ?_⟩
  obtain ⟨consecutive, length⟩ := divisible.spans inside (each dimension inside)
  have axis : axisOf divisors shape (alignment.getD (replicate shape.length 1)) dimension ∈
      axesOf divisors shape (alignment.getD (replicate shape.length 1)) unrollSpatialFirst :=
    (mem_axesOf unrollable).mpr ⟨dimension, inside, rfl⟩
  refine ⟨consecutive, length, fun tile mem => ⟨(mem_tilesOf fit mem).2 _ axis, ?_⟩⟩
  refine (axis_of_mem_tilesOf fit.distinct (fun other otherMember => ?_) mem).2 _ axis
  exact (fit.shape other otherMember).trans_eq ((rank _ rfl).trans (rank _ rfl).symm)

/-- Seventeen channels in an aligned and a smaller tile, and nine columns in five and four. -/
theorem fillDividedTiles_spec_four : ∃ tiles,
    fillDividedTiles [1, 2, 1, 2] [1, 17, 4, 9] (some [1, 4, 1, 1]) true = .ok tiles ∧
      Divides [1, 2, 1, 2] [1, 17, 4, 9] [1, 4, 1, 1] tiles :=
  ((@fillDividedTiles_spec [1, 2, 1, 2] [1, 17, 4, 9] true (some [1, 4, 1, 1])
    ⟨rfl, rfl, by decide⟩ (by decide) fun _ => .inr rfl).resolve_left
      fun fails => absurd fails.1 (by decide)).2

/-- NHWC has no fifth dimension. -/
theorem fillDividedTiles_five :
    (¬ ∃ dimension < 5, IndivisibleAt [1, 1, 1, 1, 1] [1, 1, 1, 1, 1]
      (List.replicate 5 1) dimension) ∧
    fillDividedTiles [1, 1, 1, 1, 1] [1, 1, 1, 1, 1] none true = .error (.noDimAtPos 4) := by
  decide

end Whole

/-! ### The division -/

def TileInfo.setShape (tile : TileInfo) (dimension : Nat) (extent : Int) : TileInfo :=
  { tile with shape := tile.shape.set dimension extent }

def TileInfo.setOffset (tile : TileInfo) (dimension : Nat) (offset : Int) : TileInfo :=
  { tile with offsets := tile.offsets.set dimension offset }

/-- A division by zero is undefined. -/
def quotient (first second : Int) : Except TilingFailure Int :=
  if second = 0 then .error .undefined else .ok (first.tdiv second)

/-- The size of the tiles, their number, and what they leave. No extent or divisor is negative. -/
def tileSizesYuvToRgb (shapeVal divisorVal : Int) : Except TilingFailure (Int × Int × Int) := do
  let tileSizeInit ← quotient shapeVal divisorVal
  let tileSize := tileSizeInit + tileSizeInit.tmod 2
  let divisorVal ← quotient shapeVal tileSize
  return (tileSize, divisorVal, shapeVal.tmod tileSize)

/-- One dimension; `next` goes on with a tile that has its size in this dimension. -/
def divideDimensionYuvToRgb (divisors shape : List Int) (dimension : Nat)
    (next : OutputTiling → TileInfo → Except TilingFailure (OutputTiling × TileInfo))
    (dividedTiles : OutputTiling) (ongoingTile : TileInfo) :
    Except TilingFailure (OutputTiling × TileInfo) := do
  let shapeVal ← valueAt shape dimension
  let divisorVal ← valueAt divisors dimension
  let (tileSize, divisorVal, remainderTileSize) ← tileSizesYuvToRgb shapeVal divisorVal
  let (dividedTiles, ongoingTile) ← (List.range divisorVal.toNat).foldlM
    (fun division idx => next division.1 (division.2.setOffset dimension (tileSize * (idx : Nat))))
    (dividedTiles, ongoingTile.setShape dimension tileSize)
  if remainderTileSize ≠ 0 then
    next dividedTiles ((ongoingTile.setShape dimension remainderTileSize).setOffset dimension
      (tileSize * divisorVal))
  else return (dividedTiles, ongoingTile)

/-- The rows are divided in every tile of the channels, also in the one that is left. -/
def divideTilesYuvToRgbOp (divisors shape : List Int) (dividedTiles : OutputTiling)
    (ongoingTile : TileInfo) : Except TilingFailure (OutputTiling × TileInfo) := do
  let ongoingTile := (ongoingTile.setShape 0 (← valueAt shape 0)).setShape 3 (← valueAt shape 3)
  let axis ← [0, 1, 2, 3].foldlM
    (fun axis dimension => return axis.set dimension (← valueAt divisors dimension))
    ongoingTile.axis
  divideDimensionYuvToRgb divisors shape 1
    (divideDimensionYuvToRgb divisors shape 2
      fun dividedTiles ongoingTile => .ok (dividedTiles ++ [ongoingTile], ongoingTile))
    dividedTiles { ongoingTile with axis := axis }

def fillDividedTilesYuvToRgbOp (divisors shape : List Int) : Except TilingFailure OutputTiling := do
  let ongoingTile := { TileInfo.ofRank divisors.length with isCompletedTile := true }
  let (dividedTiles, _) ← divideTilesYuvToRgbOp divisors shape [] ongoingTile
  return dividedTiles

/-! ### The spans of a dimension -/

/-- What a dimension is divided into. -/
structure EvenSpans (extent : Int) (spans : List Span) : Prop where
  consecutive : Consecutive 0 spans extent
  even : ∀ span ∈ spans, Even span.offset ∧ Even span.extent

/-- The tiles of one size, and one of what they leave. -/
def spansOf (tileSize : Int) (count : Nat) (remainder : Int) : List Span :=
  (List.range count).map (fun idx => ⟨tileSize * (idx : Nat), tileSize⟩) ++
    if remainder ≠ 0 then [⟨tileSize * count, remainder⟩] else []

theorem spansOf_eq (tileSize : Int) (count : Nat) (remainder : Int) :
    spansOf tileSize count remainder = place 0
      (List.replicate count tileSize ++ if remainder ≠ 0 then [remainder] else []) := by
  have whole : ∀ number : Nat, (List.range number).map
      (fun idx => (⟨tileSize * (idx : Nat), tileSize⟩ : Span)) =
        place 0 (replicate number tileSize) := by
    intro number
    induction number with
    | zero => rfl
    | succ number ih =>
      rw [range_succ, map_append, ih, replicate_succ',
        place_append, sum_replicate, nsmul_eq_mul, zero_add, mul_comm]
      rfl
  rw [spansOf, whole, place_append, sum_replicate, nsmul_eq_mul, zero_add, mul_comm]
  split <;> rfl

theorem tileSizesYuvToRgb_spec {shapeVal divisorVal : Int} (even : Even shapeVal)
    (pos : 1 ≤ divisorVal) (enough : divisorVal ≤ shapeVal) :
    ∃ (tileSize : Int) (count : Nat) (remainder : Int),
      tileSizesYuvToRgb shapeVal divisorVal = .ok (tileSize, count, remainder) ∧
        EvenSpans shapeVal (spansOf tileSize count remainder) := by
  have initPos : 0 < shapeVal.tdiv divisorVal := by
    rw [tdiv_eq_ediv_of_nonneg (by omega)]
    exact Int.le_ediv_of_mul_le pos (by rwa [zero_add, one_mul])
  generalize init : shapeVal.tdiv divisorVal = tileSizeInit at initPos
  have evenSize : Even (tileSizeInit + tileSizeInit.tmod 2) := by
    rw [tmod_eq_emod_of_nonneg initPos.le, even_iff]
    omega
  have sizePos : 0 < tileSizeInit + tileSizeInit.tmod 2 := by
    rw [tmod_eq_emod_of_nonneg initPos.le]
    omega
  generalize isSize : tileSizeInit + tileSizeInit.tmod 2 = tileSize at evenSize sizePos
  obtain ⟨count, isCount⟩ := eq_ofNat_of_zero_le
    (ediv_nonneg (show 0 ≤ shapeVal by omega) sizePos.le)
  have split := mul_ediv_add_emod shapeVal tileSize
  have nonneg := emod_nonneg shapeVal sizePos.ne'
  rw [isCount] at split
  refine ⟨tileSize, count, shapeVal % tileSize, ?_, ?_, ?_⟩
  · unfold tileSizesYuvToRgb
    refine (ok_bind (if_neg (show divisorVal ≠ 0 by omega)) _).trans ?_
    rw [init]
    rw [isSize]
    refine (ok_bind (if_neg sizePos.ne') _).trans ?_
    rw [tdiv_eq_ediv_of_nonneg (by omega), tmod_eq_emod_of_nonneg (by omega), isCount]
    rfl
  · rw [spansOf_eq]
    have sum : (replicate count tileSize ++
        if shapeVal % tileSize ≠ 0 then [shapeVal % tileSize] else []).sum = shapeVal := by
      rw [sum_append, sum_replicate, nsmul_eq_mul, mul_comm]
      split
      · rw [sum_singleton, split]
      · rename_i whole
        rw [sum_nil]
        omega
    have pos : ∀ extent ∈ replicate count tileSize ++
        (if shapeVal % tileSize ≠ 0 then [shapeVal % tileSize] else []), 0 < extent := by
      intro extent mem
      rcases mem_append.mp mem with first | last
      · rwa [eq_of_mem_replicate first]
      · split at last
        · rename_i rest
          rw [mem_singleton.mp last]
          omega
        · cases last
    have consecutive := place_consecutive 0 pos
    rwa [sum, zero_add] at consecutive
  · intro span mem
    have evenRest : Even (shapeVal % tileSize) := by
      rw [← split] at even
      exact (even_add.mp even).mp (evenSize.mul_right _)
    rcases mem_append.mp mem with first | last
    · obtain ⟨idx, -, rfl⟩ := mem_map.mp first
      exact ⟨evenSize.mul_right _, evenSize⟩
    · split at last
      · rw [mem_singleton.mp last]
        exact ⟨evenSize.mul_right _, evenRest⟩
      · cases last

/-! ### The tiles of both dimensions -/

section Dimensions

variable {divisors shape : List Int} {axes : List Axis} {dimensions : List Nat}
  {first second tile : TileInfo} {dimension : Nat} {total : Int}
  {next : OutputTiling → TileInfo → Except TilingFailure (OutputTiling × TileInfo)}

theorem SameOff.setShape (same : SameOff dimensions first second) (dimension : Nat) (extent : Int) :
    SameOff dimensions (first.setShape dimension extent) (second.setShape dimension extent) :=
  ⟨same.shape.weaken.set, same.offsets, same.axis, same.isCompletedTile⟩

theorem SameOff.setOffset (same : SameOff dimensions first second) (dimension : Nat)
    (offset : Int) :
    SameOff dimensions (first.setOffset dimension offset) (second.setOffset dimension offset) :=
  ⟨same.shape, same.offsets.weaken.set, same.axis, same.isCompletedTile⟩

theorem sameOff_setShape (extent : Int) :
    SameOff (dimension :: dimensions) (tile.setShape dimension extent) tile :=
  ⟨agreeOff_set_left, .refl _ _, .refl _ _, rfl⟩

theorem sameOff_setOffset (offset : Int) :
    SameOff (dimension :: dimensions) (tile.setOffset dimension offset) tile :=
  ⟨.refl _ _, agreeOff_set_left, .refl _ _, rfl⟩

theorem setShape_setOffset (found : tile.axis[dimension]? = some total) (extent offset : Int) :
    (tile.setShape dimension extent).setOffset dimension offset =
      tile.assign dimension extent offset total := by
  have same : tile.axis.set dimension total = tile.axis := by
    refine ext_getElem? fun idx => ?_
    rw [getElem?_set]
    split
    · rename_i here
      rw [← here, found, if_pos (List.getElem?_eq_some_iff.mp found).1]
    · rfl
  unfold TileInfo.assign
  rw [same]
  rfl

/-- A function that stores the tiles of some dimensions when the numbers of tiles are set. -/
def StoresFor (divisors : List Int) (axes : List Axis)
    (run : OutputTiling → TileInfo → Except TilingFailure (OutputTiling × TileInfo)) : Prop :=
  ∀ dividedTiles ongoingTile, ongoingTile.axis = divisors → ∃ last,
    run dividedTiles ongoingTile = .ok (dividedTiles ++ tilesOf axes ongoingTile, last) ∧
      SameOff (axes.map Axis.dimension) last ongoingTile ∧ last.axis = divisors

section

variable (stores : StoresFor divisors axes next) (found : divisors[dimension]? = some total)
include stores found

theorem foldlM_storesFor (isAxis : tile.axis = divisors) (tileSize : Int)
    (dividedTiles : OutputTiling) (count : Nat) :
    ∃ last, (List.range count).foldlM (fun division idx =>
        next division.1 (division.2.setOffset dimension (tileSize * (idx : Nat))))
          (dividedTiles, tile.setShape dimension tileSize) =
        .ok (dividedTiles ++ ((List.range count).map fun idx =>
          (⟨tileSize * (idx : Nat), tileSize⟩ : Span)).flatMap fun span =>
            tilesOf axes (tile.assign dimension span.extent span.offset total), last) ∧
      (∀ offset, SameOff (axes.map Axis.dimension) (last.setOffset dimension offset)
        (tile.assign dimension tileSize offset total)) ∧
      SameOff (dimension :: axes.map Axis.dimension) last tile ∧ last.axis = divisors := by
  induction count with
  | zero =>
    refine ⟨_, (congrArg (fun tiles => ok (tiles, _)) (append_nil _).symm),
      fun offset => ?_, sameOff_setShape _, isAxis⟩
    rw [setShape_setOffset (isAxis ▸ found)]
    exact .refl _ _
  | succ count ih =>
    obtain ⟨last, ran, same, sameTile, lastAxis⟩ := ih
    obtain ⟨after, stored, sameAfter, afterAxis⟩ := stores (dividedTiles ++
      ((List.range count).map fun idx =>
        (⟨tileSize * (idx : Nat), tileSize⟩ : Span)).flatMap fun span =>
          tilesOf axes (tile.assign dimension span.extent span.offset total))
      (last.setOffset dimension (tileSize * (count : Nat))) lastAxis
    refine ⟨after, ?_, fun offset => ?_,
      sameAfter.weaken.trans ((sameOff_setOffset _).trans sameTile), afterAxis⟩
    · rw [range_succ, foldlM_append, ok_bind ran, foldlM_cons, ok_bind stored, foldlM_nil]
      refine congrArg (fun tiles => ok (tiles, after)) ?_
      rw [map_append, flatMap_append, ← append_assoc,
        tilesOf_congr axes (same _), map_singleton, flatMap_singleton]
    · have again : (last.setOffset dimension (tileSize * (count : Nat))).setOffset dimension
          offset = last.setOffset dimension offset :=
        congrArg (TileInfo.mk last.shape · last.axis last.isCompletedTile) (set_set _)
      have moved := sameAfter.setOffset dimension offset
      rw [again] at moved
      exact moved.trans (same offset)

theorem divideDimensionYuvToRgb_stores {shapeVal tileSize remainder : Int} {count : Nat}
    (isShape : shape[dimension]? = some shapeVal)
    (sizes : tileSizesYuvToRgb shapeVal total = .ok (tileSize, count, remainder)) :
    StoresFor divisors (⟨dimension, total, spansOf tileSize count remainder⟩ :: axes)
      (divideDimensionYuvToRgb divisors shape dimension next) := by
  intro dividedTiles ongoingTile isAxis
  obtain ⟨last, ran, same, sameTile, lastAxis⟩ :=
    foldlM_storesFor stores found isAxis tileSize dividedTiles count
  unfold divideDimensionYuvToRgb
  rw [ok_bind (valueAt_eq isShape), ok_bind (valueAt_eq found), ok_bind sizes]
  dsimp only
  rw [toNat_natCast, ok_bind ran]
  rw [tilesOf, spansOf, flatMap_append, ← append_assoc]
  split
  · obtain ⟨after, stored, sameAfter, afterAxis⟩ := stores _
      ((last.setShape dimension remainder).setOffset dimension (tileSize * count)) lastAxis
    have isRest := (same (tileSize * count)).setShape dimension remainder
    have again : (ongoingTile.assign dimension tileSize (tileSize * count) total).setShape dimension
        remainder = ongoingTile.assign dimension remainder (tileSize * count) total :=
      congrArg (TileInfo.mk · _ _ _) (set_set _)
    rw [again] at isRest
    refine ⟨after, stored.trans ?_, sameAfter.weaken.trans ((sameOff_setOffset _).trans
      ((sameOff_setShape _).trans sameTile)), afterAxis⟩
    exact congrArg (fun tiles => ok (_ ++ tiles, after))
      ((tilesOf_congr axes isRest).trans (flatMap_singleton _ _).symm)
  · exact ⟨last, by rw [flatMap_nil, append_nil]; rfl, sameTile, lastAxis⟩

end

end Dimensions

/-- What the tiles of an output cover of it, and what their sizes are. -/
structure DividesYuvToRgb (shape : List Int) (tiles : OutputTiling) : Prop where
  disjoint : tiles.Pairwise fun first second =>
    ∀ point, ¬ (first.Contains point ∧ second.Contains point)
  covers : ∀ point : Nat → Int, (∃ tile ∈ tiles, tile.Contains point) ↔
    ∀ dimension < 4, 0 ≤ point dimension ∧ point dimension < shape.getD dimension 0
  even : ∀ tile ∈ tiles, ∀ dimension ∈ [1, 2],
    Even (tile.span dimension).offset ∧ Even (tile.span dimension).extent

theorem tilesOf_dividesYuvToRgb {batch channels height width channelTiles rowTiles : Int}
    {channelSpans rowSpans : List Span} (channelsEven : EvenSpans channels channelSpans)
    (rowsEven : EvenSpans height rowSpans) (axis : List Int) (isCompletedTile : Bool) :
    DividesYuvToRgb [batch, channels, height, width]
      (tilesOf [⟨1, channelTiles, channelSpans⟩, ⟨2, rowTiles, rowSpans⟩]
        ⟨[batch, 0, 0, width], [0, 0, 0, 0], axis, isCompletedTile⟩) := by
  let axes : List Axis := [⟨1, channelTiles, channelSpans⟩, ⟨2, rowTiles, rowSpans⟩]
  let base : TileInfo := ⟨[batch, 0, 0, width], [0, 0, 0, 0], axis, isCompletedTile⟩
  have fit : Fit axes base := by
    have inside : ∀ axis ∈ axes, axis.dimension < 4 := by
      intro axis mem
      rcases mem_pair.mp mem with rfl | rfl
      · exact (show 1 < 4 by decide)
      · exact (show 2 < 4 by decide)
    exact ⟨show [1, 2].Nodup by decide, inside, inside⟩
  have consecutive : ∀ axis ∈ axes, Consecutive 0 axis.spans
      ([batch, channels, height, width].getD axis.dimension 0) := by
    intro axis mem
    rcases mem_pair.mp mem with rfl | rfl
    · exact channelsEven.consecutive
    · exact rowsEven.consecutive
  refine ⟨tilesOf_disjoint fit consecutive, fun point => ?_, fun tile mem dimension isTiled => ?_⟩
  · refine exists_contains_iff fit consecutive rfl fun dimension small outside => ?_
    have planes : dimension < 4 := small
    obtain rfl | rfl : dimension = 0 ∨ dimension = 3 := by
      simp only [axes, map_cons, map_nil, mem_cons, not_mem_nil, or_false] at outside
      omega
    · rfl
    · rfl
  · rcases mem_pair.mp isTiled with rfl | rfl
    · exact channelsEven.even _ ((mem_tilesOf fit mem).2 _ mem_cons_self)
    · exact rowsEven.even _ ((mem_tilesOf fit mem).2 _ (mem_cons_of_mem _ mem_cons_self))

/-- No division is by zero, and the tiles divide the output. -/
theorem fillDividedTilesYuvToRgbOp_spec {batch channels height width channelTiles rowTiles : Int}
    (evenChannels : Even channels) (evenHeight : Even height)
    (channelTilesPos : 1 ≤ channelTiles) (channelsEnough : channelTiles ≤ channels)
    (rowTilesPos : 1 ≤ rowTiles) (rowsEnough : rowTiles ≤ height) :
    ∃ tiles, fillDividedTilesYuvToRgbOp [1, channelTiles, rowTiles, 1]
        [batch, channels, height, width] = .ok tiles ∧
      DividesYuvToRgb [batch, channels, height, width] tiles := by
  obtain ⟨channelSize, channelCount, channelRest, channelSizes, channelSpans⟩ :=
    tileSizesYuvToRgb_spec evenChannels channelTilesPos channelsEnough
  obtain ⟨rowSize, rowCount, rowRest, rowSizes, rowSpans⟩ :=
    tileSizesYuvToRgb_spec evenHeight rowTilesPos rowsEnough
  have push : StoresFor [1, channelTiles, rowTiles, 1] [] fun dividedTiles ongoingTile =>
      .ok (dividedTiles ++ [ongoingTile], ongoingTile) :=
    fun _ ongoingTile isAxis => ⟨ongoingTile, rfl, .refl _ _, isAxis⟩
  have rows := @divideDimensionYuvToRgb_stores _ [batch, channels, height, width] _ 2 _ _ push
    rfl _ _ _ _ rfl rowSizes
  have both := @divideDimensionYuvToRgb_stores _ [batch, channels, height, width] _ 1 _ _ rows
    rfl _ _ _ _ rfl channelSizes
  obtain ⟨last, ran, -⟩ := both []
    ⟨[batch, 0, 0, width], [0, 0, 0, 0], [1, channelTiles, rowTiles, 1], true⟩ rfl
  exact ⟨_, ok_bind ran _, tilesOf_dividesYuvToRgb channelSpans rowSpans _ _⟩

theorem fillDividedTilesYuvToRgbOp_spec_ten : ∃ tiles,
    fillDividedTilesYuvToRgbOp [1, 1, 3, 1] [1, 2, 10, 4] = .ok tiles ∧
      DividesYuvToRgb [1, 2, 10, 4] tiles :=
  fillDividedTilesYuvToRgbOp_spec (by decide) (by decide) (by decide) (by decide) (by decide)
    (by decide)

end NpuPlugin.Tiling
