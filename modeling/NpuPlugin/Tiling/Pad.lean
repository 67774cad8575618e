/-
This file is about the tiles of a padded tensor. The input of a tile is what is left of it without
its padding, and the tile keeps the padding of the borders that it has.
-/

import NpuPlugin.Tiling.Divided

namespace NpuPlugin.Tiling

open Except List Option Spans

inductive PadFailure
  | unsupportedTileShape (shape : Int)
  | tileOffset (offset inputShape : Int)
deriving DecidableEq, Repr

def padTileRange (outputTile : TileInfo) (inShape outShape origPadsBegin origPadsEnd : List Int)
    (ind : Nat) : Except PadFailure (Int × Int) := do
  let outputOffset := outputTile.offsets.getD ind 0
  let outputExtent := outputTile.shape.getD ind 0
  let shape :=
    if outputTile.axis.getD ind 0 = 1 then inShape.getD ind 0
    else outputExtent - (if outputOffset = 0 then origPadsBegin.getD ind 0 else 0) -
      if outputOffset + outputExtent = outShape.getD ind 0 then origPadsEnd.getD ind 0 else 0
  if ¬ 0 < shape then .error (.unsupportedTileShape shape)
  else
    let offset := if outputOffset ≠ 0 then outputOffset - origPadsBegin.getD ind 0 else outputOffset
    if ¬ offset < inShape.getD ind 0 then .error (.tileOffset offset (inShape.getD ind 0))
    else return (shape, offset)

/-- All dimensions of the tile are changed. -/
def backInferPadTile (outputTile : TileInfo)
    (inShape outShape origPadsBegin origPadsEnd : List Int) : Except PadFailure TileInfo := do
  let ranges ← (List.range inShape.length).mapM
    (padTileRange outputTile inShape outShape origPadsBegin origPadsEnd)
  return { outputTile with shape := ranges.map Prod.fst, offsets := ranges.map Prod.snd }

def updatePadOpAttrsAfterTiling (outShape : List Int) (outTile : TileInfo)
    (padsBegin padsEnd : List Int) : List Int × List Int :=
  let tiled := fun ind => ind < outShape.length ∧ outTile.axis.getD ind 0 ≠ 1
  (padsBegin.mapIdx fun ind padBegin =>
      if tiled ind then
        if outTile.offsets.getD ind 0 < padBegin then padBegin - outTile.offsets.getD ind 0 else 0
      else padBegin,
    padsEnd.mapIdx fun ind padEnd =>
      if tiled ind ∧ outTile.offsets.getD ind 0 + outTile.shape.getD ind 0 ≠ outShape.getD ind 0
      then 0 else padEnd)

/-- A tensor that is padded. -/
structure Pad where
  inShape : List Int
  padsBegin : List Int
  padsEnd : List Int
  begin_length : padsBegin.length = inShape.length
  end_length : padsEnd.length = inShape.length
  begin_nonneg : ∀ pad ∈ padsBegin, 0 ≤ pad
  end_nonneg : ∀ pad ∈ padsEnd, 0 ≤ pad

namespace Pad

variable (pad : Pad)

def outShape : List Int :=
  (List.range pad.inShape.length).map fun ind =>
    pad.inShape.getD ind 0 + pad.padsBegin.getD ind 0 + pad.padsEnd.getD ind 0

def backInfer (outputTile : TileInfo) : Except PadFailure TileInfo :=
  backInferPadTile outputTile pad.inShape pad.outShape pad.padsBegin pad.padsEnd

def adjustedPads (outTile : TileInfo) : List Int × List Int :=
  updatePadOpAttrsAfterTiling pad.outShape outTile pad.padsBegin pad.padsEnd

/-- The inputs of the tiles divide the input, and with the pads that are left they are as large as
the tiles. -/
structure Exact (tiles inputs : OutputTiling) : Prop where
  rank : ∀ input ∈ inputs, input.shape.length = pad.inShape.length
  inside : ∀ input ∈ inputs, ∀ dimension < pad.inShape.length,
    0 ≤ (input.span dimension).offset ∧ (input.span dimension).offset +
      (input.span dimension).extent ≤ pad.inShape.getD dimension 0
  disjoint : inputs.Pairwise fun first second =>
    ∀ point, ¬ (first.Contains point ∧ second.Contains point)
  covers : ∀ point : Nat → Int, (∀ dimension < pad.inShape.length, 0 ≤ point dimension ∧
    point dimension < pad.inShape.getD dimension 0) → ∃ input ∈ inputs, input.Contains point
  extents : List.Forall₂ (fun tile input => ∀ dimension < pad.inShape.length,
    (input.span dimension).extent + (pad.adjustedPads tile).1.getD dimension 0 +
      (pad.adjustedPads tile).2.getD dimension 0 = (tile.span dimension).extent) tiles inputs

end Pad

section Axis

def inputSpan (extent padBegin padEnd : Int) (span : Span) : Span :=
  ⟨if span.offset ≠ 0 then span.offset - padBegin else span.offset,
    span.extent - (if span.offset = 0 then padBegin else 0) -
      if span.offset + span.extent = extent + padBegin + padEnd then padEnd else 0⟩

variable {extent padBegin padEnd : Int} {spans : List Span} {span : Span}

section

variable (consecutive : Consecutive 0 spans (extent + padBegin + padEnd))
  (accepted : ∀ other ∈ spans, 0 < (inputSpan extent padBegin padEnd other).extent)
include consecutive accepted

theorem padBegin_lt (mem : span ∈ spans) (behind : span.offset ≠ 0) : padBegin < span.offset := by
  obtain ⟨begins, positive, ends⟩ := consecutive.bounds mem
  obtain ⟨first, firstMember, starts, -⟩ :=
    consecutive.covers le_rfl (lt_of_lt_of_le (by omega) ends)
  have firstOffset : first.offset = 0 := le_antisymm starts (consecutive.bounds firstMember).1
  have long := accepted first firstMember
  simp only [inputSpan, firstOffset, if_true] at long
  have later : first.offset + first.extent ≤ span.offset := by
    by_contra inside
    have inFirst : first.Contains span.offset := ⟨firstOffset.le.trans begins, not_le.mp inside⟩
    have same := consecutive.eq_of_contains firstMember mem inFirst ⟨le_rfl, by omega⟩
    exact behind (same ▸ firstOffset)
  split at long <;> omega

section

variable (beginNonneg : 0 ≤ padBegin)
include beginNonneg

theorem end_lt (mem : span ∈ spans)
    (before : span.offset + span.extent ≠ extent + padBegin + padEnd) :
    span.offset + span.extent < extent + padBegin := by
  obtain ⟨begins, positive, ends⟩ := consecutive.bounds mem
  have covered : ∃ last ∈ spans, last.Contains (extent + padBegin + padEnd - 1) :=
    consecutive.covers (by omega) (by omega)
  obtain ⟨last, lastMember, -, reaches⟩ := covered
  have lastEnd : last.offset + last.extent = extent + padBegin + padEnd :=
    le_antisymm (consecutive.bounds lastMember).2.2 (by omega)
  have long := accepted last lastMember
  simp only [inputSpan, lastEnd, if_true] at long
  have earlier : span.offset + span.extent ≤ last.offset := by
    by_contra inside
    have inLast : last.Contains (span.offset + span.extent - 1) := ⟨by omega, by omega⟩
    have same := consecutive.eq_of_contains lastMember mem inLast ⟨by omega, by omega⟩
    exact before (same ▸ lastEnd)
  split at long <;> omega

/-- The input of a span is what is left of it without the padding. -/
theorem inputSpan_contains (endNonneg : 0 ≤ padEnd) (mem : span ∈ spans) (point : Int) :
    (inputSpan extent padBegin padEnd span).Contains point ↔
      (0 ≤ point ∧ point < extent) ∧ span.Contains (point + padBegin) := by
  have first := padBegin_lt consecutive accepted mem
  have last := end_lt consecutive accepted beginNonneg mem
  simp only [inputSpan, Span.Contains]
  by_cases begins : span.offset = 0 <;>
    by_cases ends : span.offset + span.extent = extent + padBegin + padEnd <;>
    simp only [begins, ends, ne_eq, not_true_eq_false, not_false_eq_true, if_true, if_false,
      forall_true_left] at first last ⊢ <;> omega

theorem inputSpan_extent (endNonneg : 0 ≤ padEnd) (mem : span ∈ spans) :
    (inputSpan extent padBegin padEnd span).extent +
      (if span.offset < padBegin then padBegin - span.offset else 0) +
      (if span.offset + span.extent ≠ extent + padBegin + padEnd then 0 else padEnd) =
      span.extent := by
  have first := padBegin_lt consecutive accepted mem
  simp only [inputSpan]
  by_cases begins : span.offset = 0
  · simp only [begins, if_true]
    split <;> split <;> omega
  · simp only [begins, if_false, not_lt.mpr (first begins).le, ite_not]
    split <;> omega

end

end

end Axis

namespace Pad

variable {pad : Pad} {spans : Nat → List Span} {tile input : TileInfo} {dimension : Nat}

theorem length_outShape : pad.outShape.length = pad.inShape.length :=
  (length_map _).trans length_range

theorem getD_outShape (inside : dimension < pad.inShape.length) :
    pad.outShape.getD dimension 0 = pad.inShape.getD dimension 0 +
      pad.padsBegin.getD dimension 0 + pad.padsEnd.getD dimension 0 := by
  rw [outShape, getD_eq_getElem?_getD, getElem?_map, getElem?_range inside]
  rfl

theorem nonneg_getD {pads : List Int} (nonneg : ∀ pad ∈ pads, 0 ≤ pad) (dimension : Nat) :
    0 ≤ pads.getD dimension 0 := by
  rw [getD_eq_getElem?_getD]
  cases found : pads[dimension]? with
  | none => exact le_rfl
  | some pad => exact nonneg pad (mem_of_getElem? found)

variable (pad) in
def inputOf (dimension : Nat) : Span → Span :=
  inputSpan (pad.inShape.getD dimension 0) (pad.padsBegin.getD dimension 0)
    (pad.padsEnd.getD dimension 0)

variable (pad) in
structure HasSpans (spans : Nat → List Span) (tile : TileInfo) : Prop where
  span_mem : ∀ dimension < pad.inShape.length, tile.span dimension ∈ spans dimension
  axis_eq : ∀ dimension < pad.inShape.length,
    tile.axis.getD dimension 0 = ((spans dimension).length : Int)

variable (pad) in
/-- The spans of each dimension divide the output. -/
def Spanned (spans : Nat → List Span) : Prop :=
  ∀ dimension < pad.inShape.length, Consecutive 0 (spans dimension)
    (pad.inShape.getD dimension 0 + pad.padsBegin.getD dimension 0 + pad.padsEnd.getD dimension 0)

/-- A dimension that is not tiled has a single span. -/
theorem HasSpans.whole (hasSpans : pad.HasSpans spans tile) (spanned : pad.Spanned spans)
    (inside : dimension < pad.inShape.length) (untiled : tile.axis.getD dimension 0 = 1) :
    tile.span dimension = ⟨0, pad.inShape.getD dimension 0 + pad.padsBegin.getD dimension 0 +
      pad.padsEnd.getD dimension 0⟩ := by
  have single : (spans dimension).length = 1 :=
    Int.ofNat_inj.mp ((hasSpans.axis_eq dimension inside).symm.trans untiled)
  rw [(spanned dimension inside).eq_of_length_one single (hasSpans.span_mem dimension inside),
    sub_zero]

theorem range_of_checks {shape offset inShape : Int} {range : Int × Int}
    (accepted : (if ¬ 0 < shape then .error (.unsupportedTileShape shape)
      else if ¬ offset < inShape then .error (.tileOffset offset inShape)
        else .ok (shape, offset) : Except PadFailure (Int × Int)) = .ok range) :
    range = (shape, offset) ∧ 0 < shape := by
  by_cases positive : 0 < shape
  · rw [if_neg (not_not.mpr positive)] at accepted
    by_cases inside : offset < inShape
    · rw [if_neg (not_not.mpr inside)] at accepted
      exact ⟨(ok.inj accepted).symm, positive⟩
    · rw [if_pos inside] at accepted
      cases accepted
  · rw [if_pos positive] at accepted
    cases accepted

section

variable (hasSpans : pad.HasSpans spans tile) (spanned : pad.Spanned spans)
include hasSpans spanned

theorem padTileRange_ok (inside : dimension < pad.inShape.length) {range : Int × Int}
    (accepted : padTileRange tile pad.inShape pad.outShape pad.padsBegin pad.padsEnd dimension =
      .ok range) :
    (⟨range.2, range.1⟩ : Span) = pad.inputOf dimension (tile.span dimension) ∧ 0 < range.1 := by
  obtain ⟨same, positive⟩ := range_of_checks accepted
  rw [same]
  refine ⟨?_, positive⟩
  rw [getD_outShape inside]
  by_cases untiled : tile.axis.getD dimension 0 = 1
  · have whole := hasSpans.whole spanned inside untiled
    have offset : tile.offsets.getD dimension 0 = 0 := congrArg Span.offset whole
    rw [if_pos untiled, whole, offset, inputOf, inputSpan, if_pos rfl, zero_add, if_pos rfl]
    simp only [ne_eq, not_true_eq_false, if_false]
    congr 1
    omega
  · rw [if_neg untiled]
    rfl

theorem backInfer_ok (accepted : pad.backInfer tile = .ok input) :
    input.shape.length = pad.inShape.length ∧ ∀ dimension < pad.inShape.length,
      input.span dimension = pad.inputOf dimension (tile.span dimension) ∧
        0 < (input.span dimension).extent := by
  obtain ⟨ranges, ran, same⟩ := Run.bind_ok accepted
  obtain rfl := (ok.inj same).symm
  have taken := Alongside.of_mapM ran
  have length : ranges.length = pad.inShape.length := taken.length_eq.symm.trans length_range
  refine ⟨(length_map _).trans length, fun dimension inside => ?_⟩
  obtain ⟨range, found, ranHere⟩ := Alongside.getElem?_right taken dimension
    (getElem?_range inside)
  obtain ⟨equal, positive⟩ := padTileRange_ok hasSpans spanned inside ranHere
  have span : (TileInfo.mk (ranges.map Prod.fst) (ranges.map Prod.snd) tile.axis
      tile.isCompletedTile).span dimension = ⟨range.2, range.1⟩ := by
    simp only [TileInfo.span, getD_eq_getElem?_getD, getElem?_map, found, map_some, getD_some]
  exact ⟨span.trans equal, (congrArg Span.extent span).symm ▸ positive⟩

theorem getD_adjustedPads (inside : dimension < pad.inShape.length) :
    (pad.adjustedPads tile).1.getD dimension 0 =
        (if (tile.span dimension).offset < pad.padsBegin.getD dimension 0 then
          pad.padsBegin.getD dimension 0 - (tile.span dimension).offset else 0) ∧
      (pad.adjustedPads tile).2.getD dimension 0 =
        (if (tile.span dimension).offset + (tile.span dimension).extent ≠
            pad.inShape.getD dimension 0 + pad.padsBegin.getD dimension 0 +
              pad.padsEnd.getD dimension 0 then 0 else pad.padsEnd.getD dimension 0) := by
  have inOut : dimension < pad.outShape.length := inside.trans_eq length_outShape.symm
  have mapped : ∀ {pads : List Int} (change : Nat → Int → Int), pads.length = pad.inShape.length →
      (pads.mapIdx change).getD dimension 0 = change dimension (pads.getD dimension 0) :=
    fun change length => by
      rw [getD_eq_getElem?_getD, getElem?_mapIdx, getD_eq_getElem?_getD,
        getElem?_eq_getElem (inside.trans_eq length.symm)]
      rfl
  rw [adjustedPads, updatePadOpAttrsAfterTiling]
  simp only [mapped _ pad.begin_length, mapped _ pad.end_length, getD_outShape inside, inOut,
    true_and, TileInfo.span]
  by_cases untiled : tile.axis.getD dimension 0 = 1
  · have whole := hasSpans.whole spanned inside untiled
    have offset : tile.offsets.getD dimension 0 = 0 := congrArg Span.offset whole
    have extent : tile.shape.getD dimension 0 = _ := congrArg Span.extent whole
    have nonneg := nonneg_getD pad.begin_nonneg dimension
    simp only [untiled, offset, extent, ne_eq, not_true_eq_false, false_and, if_false, zero_add,
      and_true, sub_zero]
    split <;> omega
  · simp only [ne_eq, untiled, not_false_eq_true, if_true, true_and]
    exact ⟨if_congr Iff.rfl rfl rfl, if_congr Iff.rfl rfl rfl⟩

end

section Tiles

variable {tiles inputs : OutputTiling}

variable (pad) in
/-- The tiles have the spans of each dimension, and they cover the padded output. -/
structure Covered (spans : Nat → List Span) (tiles : OutputTiling) : Prop where
  spanned : pad.Spanned spans
  occupied : ∀ dimension < pad.inShape.length, 0 < (spans dimension).length
  hasSpans : ∀ tile ∈ tiles, pad.HasSpans spans tile
  rank : ∀ tile ∈ tiles, tile.shape.length = pad.inShape.length
  covers : ∀ point : Nat → Int, (∀ dimension < pad.inShape.length, 0 ≤ point dimension ∧
    point dimension < pad.inShape.getD dimension 0 + pad.padsBegin.getD dimension 0 +
      pad.padsEnd.getD dimension 0) → ∃ tile ∈ tiles, tile.Contains point

/-- Each span of a dimension is that of a tile. -/
theorem Covered.exists_tile (covered : pad.Covered spans tiles)
    (inside : dimension < pad.inShape.length) {span : Span} (mem : span ∈ spans dimension) :
    ∃ tile ∈ tiles, tile.span dimension = span := by
  obtain ⟨begins, positive, ends⟩ := (covered.spanned dimension inside).bounds mem
  let point : Nat → Int := fun other => if other = dimension then span.offset else 0
  obtain ⟨tile, tileMember, contains⟩ := covered.covers point fun other otherInside => by
    by_cases same : other = dimension
    · simp only [point, same]
      omega
    · obtain ⟨first, firstMember⟩ :=
        exists_mem_of_length_pos (covered.occupied other otherInside)
      have bounds := (covered.spanned other otherInside).bounds firstMember
      simp only [point, if_neg same]
      omega
  have here := contains dimension (inside.trans_eq (covered.rank tile tileMember).symm)
  simp only [point, if_true] at here
  exact ⟨tile, tileMember, (covered.spanned dimension inside).eq_of_contains
    ((covered.hasSpans tile tileMember).span_mem dimension inside) mem here ⟨le_rfl, by omega⟩⟩

theorem Covered.positive (covered : pad.Covered spans tiles)
    (accepted : tiles.mapM pad.backInfer = .ok inputs) (inside : dimension < pad.inShape.length)
    (span : Span) (mem : span ∈ spans dimension) : 0 < (pad.inputOf dimension span).extent := by
  obtain ⟨tile, tileMember, same⟩ := covered.exists_tile inside mem
  obtain ⟨input, -, ran⟩ := Alongside.exists_of_mem_left (Alongside.of_mapM accepted) tileMember
  obtain ⟨equal, positive⟩ :=
    (backInfer_ok (covered.hasSpans tile tileMember) covered.spanned ran).2 dimension inside
  rw [← same, ← equal]
  exact positive

theorem Covered.contains_iff (covered : pad.Covered spans tiles)
    (accepted : tiles.mapM pad.backInfer = .ok inputs) (tileMember : tile ∈ tiles)
    (ran : pad.backInfer tile = .ok input) (point : Nat → Int) :
    input.Contains point ↔ (∀ dimension < pad.inShape.length, 0 ≤ point dimension ∧
      point dimension < pad.inShape.getD dimension 0) ∧
        tile.Contains fun dimension => point dimension + pad.padsBegin.getD dimension 0 := by
  have hasSpans := covered.hasSpans tile tileMember
  obtain ⟨length, each⟩ := backInfer_ok hasSpans covered.spanned ran
  simp only [TileInfo.Contains, length, covered.rank tile tileMember, ← forall_and]
  refine forall_congr' fun dimension => forall_congr' fun inside => ?_
  rw [(each dimension inside).1]
  exact inputSpan_contains (covered.spanned dimension inside) (covered.positive accepted inside)
    (nonneg_getD pad.begin_nonneg dimension) (nonneg_getD pad.end_nonneg dimension)
    (hasSpans.span_mem dimension inside) _

/-- What is left of tiles that divide the padded output divides the input. -/
theorem Covered.exact (covered : pad.Covered spans tiles)
    (disjoint : tiles.Pairwise fun first second =>
      ∀ point, ¬ (first.Contains point ∧ second.Contains point))
    (accepted : tiles.mapM pad.backInfer = .ok inputs) : pad.Exact tiles inputs := by
  have taken : List.Forall₂ (fun tile input => tile ∈ tiles ∧ pad.backInfer tile = .ok input)
      tiles inputs :=
    (forall₂_and_left _ _).mpr ⟨fun tile mem => mem, Alongside.of_mapM accepted⟩
  refine ⟨fun input mem => ?_, fun input mem dimension inside => ?_, ?_,
    fun point inBounds => ?_, taken.imp fun tile input takes dimension inside => ?_⟩
  · obtain ⟨tile, -, tileMember, ran⟩ := Alongside.exists_of_mem_right taken mem
    exact (backInfer_ok (covered.hasSpans tile tileMember) covered.spanned ran).1
  · obtain ⟨tile, -, tileMember, ran⟩ := Alongside.exists_of_mem_right taken mem
    have hasSpans := covered.hasSpans tile tileMember
    obtain ⟨equal, positive⟩ := (backInfer_ok hasSpans covered.spanned ran).2 dimension inside
    refine Span.bounds_of_contains positive fun point contains => ?_
    rw [equal] at contains
    exact ((inputSpan_contains (covered.spanned dimension inside)
      (covered.positive accepted inside) (nonneg_getD pad.begin_nonneg dimension)
      (nonneg_getD pad.end_nonneg dimension)
      (hasSpans.span_mem dimension inside) point).mp contains).1
  · refine Alongside.pairwise taken (fun firstTakes secondTakes apart point both => ?_) disjoint
    exact apart _ ⟨((covered.contains_iff accepted firstTakes.1 firstTakes.2 point).mp both.1).2,
      ((covered.contains_iff accepted secondTakes.1 secondTakes.2 point).mp both.2).2⟩
  · obtain ⟨tile, tileMember, contains⟩ := covered.covers
      (fun dimension => point dimension + pad.padsBegin.getD dimension 0) fun dimension inside => by
        have bounds := inBounds dimension inside
        have beginNonneg := nonneg_getD pad.begin_nonneg dimension
        have endNonneg := nonneg_getD pad.end_nonneg dimension
        omega
    obtain ⟨input, inputMember, -, ran⟩ := Alongside.exists_of_mem_left taken tileMember
    exact ⟨input, inputMember,
      (covered.contains_iff accepted tileMember ran point).mpr ⟨inBounds, contains⟩⟩
  · have hasSpans := covered.hasSpans tile takes.1
    obtain ⟨equal, -⟩ := (backInfer_ok hasSpans covered.spanned takes.2).2 dimension inside
    obtain ⟨beginLeft, endLeft⟩ := getD_adjustedPads hasSpans covered.spanned inside
    rw [equal, beginLeft, endLeft]
    exact inputSpan_extent (covered.spanned dimension inside) (covered.positive accepted inside)
      (nonneg_getD pad.begin_nonneg dimension) (nonneg_getD pad.end_nonneg dimension)
      (hasSpans.span_mem dimension inside)

end Tiles

section Divided

variable {divisors : List Int} {alignment : Option (List Int)} {unrollSpatialFirst : Bool}
  {tiles inputs : OutputTiling}

theorem exists_covered (divisible : Divisible divisors pad.outShape
      (alignment.getD (List.replicate pad.outShape.length 1))) (occupied : 0 < pad.outShape.length)
    (unrollable : Unrollable unrollSpatialFirst pad.outShape.length)
    (divided : fillDividedTiles divisors pad.outShape alignment unrollSpatialFirst = .ok tiles)
    (divides : Divides divisors pad.outShape
      (alignment.getD (List.replicate pad.outShape.length 1)) tiles) :
    ∃ spans, pad.Covered spans tiles := by
  obtain ⟨spans, each⟩ := fillDividedTiles_spans divisible occupied unrollable divided
  have inOut : ∀ {dimension}, dimension < pad.inShape.length → dimension < pad.outShape.length :=
    fun inside => inside.trans_eq length_outShape.symm
  refine ⟨spans, fun dimension inside => ?_, fun dimension inside => ?_, fun tile mem =>
    ⟨fun dimension inside => ?_, fun dimension inside => ?_⟩, fun tile mem => ?_,
    fun point inBounds => ?_⟩
  · have here := (each dimension (inOut inside)).1
    rwa [getD_outShape inside] at here
  · have inDivisors : dimension < divisors.length :=
      (inOut inside).trans_eq divisible.divisors_length.symm
    have found : divisors.getD dimension 0 = divisors[dimension] := by
      rw [getD_eq_getElem?_getD, getElem?_eq_getElem inDivisors, getD_some]
    have length := (each dimension (inOut inside)).2.1
    have positive := divisible.positive _ (getElem_mem inDivisors)
    rw [found] at length
    omega
  · exact ((each dimension (inOut inside)).2.2 tile mem).1
  · obtain ⟨-, length, eachTile⟩ := each dimension (inOut inside)
    exact (eachTile tile mem).2.trans length.symm
  · exact (divides.rank tile mem).trans length_outShape
  · refine divides.covers point fun dimension inside => ?_
    have inIn : dimension < pad.inShape.length := inside.trans_eq length_outShape
    rw [getD_outShape inIn]
    exact inBounds dimension inIn

/-- Where all tiles of the padded output are accepted, their inputs divide the input, and each of
them is its tile without the pads that the tile has left. -/
theorem backInferPadTile_exact (divisible : Divisible divisors pad.outShape
      (alignment.getD (List.replicate pad.outShape.length 1))) (occupied : 0 < pad.outShape.length)
    (unrollable : Unrollable unrollSpatialFirst pad.outShape.length)
    (divided : fillDividedTiles divisors pad.outShape alignment unrollSpatialFirst = .ok tiles)
    (accepted : tiles.mapM pad.backInfer = .ok inputs) : pad.Exact tiles inputs := by
  rcases fillDividedTiles_spec divisible occupied unrollable with
    ⟨-, failed⟩ | ⟨-, other, ran, divides⟩
  · rw [divided] at failed
    cases failed
  · rw [divided] at ran
    obtain rfl := ok.inj ran
    obtain ⟨spans, covered⟩ := exists_covered divisible occupied unrollable divided divides
    exact covered.exact divides.disjoint accepted

end Divided

/-- A line of seven that is padded to eleven is tiled in two. -/
def lineOfSeven : Pad where
  inShape := [1, 7]
  padsBegin := [0, 1]
  padsEnd := [0, 3]
  begin_length := rfl
  end_length := rfl
  begin_nonneg := by decide
  end_nonneg := by decide

theorem lineOfSeven_exact : ∃ tiles inputs,
    fillDividedTiles [1, 2] lineOfSeven.outShape none false = .ok tiles ∧
      tiles.mapM lineOfSeven.backInfer = .ok inputs ∧ lineOfSeven.Exact tiles inputs :=
  ⟨[⟨[1, 6], [0, 0], [1, 2], true⟩, ⟨[1, 5], [0, 6], [1, 2], true⟩],
    [⟨[1, 5], [0, 0], [1, 2], true⟩, ⟨[1, 2], [0, 5], [1, 2], true⟩], by decide, by decide,
    @backInferPadTile_exact lineOfSeven [1, 2] none false _ _ ⟨rfl, rfl, by decide⟩ (by decide)
      (fun first => absurd first (by decide)) (by decide) (by decide)⟩

end Pad

end NpuPlugin.Tiling
