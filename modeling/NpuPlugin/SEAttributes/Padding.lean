/-
This file models the storage element table of a padded tensor. The attribute that is made for a tile
takes the place of the whole one except for tiles that begin and end in the padding at the
beginning, and for tiles that begin in the data and are mirrored to before their first position.
-/

import NpuPlugin.Library.Loop
import NpuPlugin.SEAttributes.Model

namespace NpuPlugin.SEAttributes

open Boxes Except Int Run

inductive PadMode
  | CONSTANT
  | EDGE
  | REFLECT
  | SYMMETRIC
deriving DecidableEq, Repr

structure SEPaddingAttr where
  mode : PadMode
  padding : Padding
  offsets : Option Shape
  sizes : Option Shape
deriving DecidableEq

namespace SEPaddingAttr

inductive CoordLocation
  | padBegin
  | inData
  | padEnd
deriving DecidableEq, Repr

def getPadCoordinateTransformationFn : PadMode → Int → Int → Int → Int
  | .CONSTANT, coord, padBegin, inputSize | .EDGE, coord, padBegin, inputSize =>
    if coord < padBegin then 0
    else if coord ≥ padBegin + inputSize then inputSize - 1
    else coord - padBegin
  | .REFLECT, coord, padBegin, inputSize =>
    if coord < padBegin then padBegin - coord
    else if coord ≥ padBegin + inputSize then (inputSize - 1) - (coord - inputSize - padBegin + 1)
    else coord - padBegin
  | .SYMMETRIC, coord, padBegin, inputSize =>
    if coord < padBegin then padBegin - coord - 1
    else if coord ≥ padBegin + inputSize then inputSize - (coord - inputSize - padBegin + 1)
    else coord - padBegin

variable (attr : SEPaddingAttr)

def inferPadShapeImpl (shape : Shape) (computeShapeFn : Int → Int → Int → Int) : Shape :=
  let newHeight := computeShapeFn (shape .H) attr.padding.top attr.padding.bottom
  let newWidth := computeShapeFn (shape .W) attr.padding.left attr.padding.right
  Shape.of (shape .N) (shape .C) newHeight newWidth

def inferOutputShape (inputShape : Shape) : Shape :=
  match attr.sizes with
  | some sizes => sizes
  | none => attr.inferPadShapeImpl inputShape fun inputSize padBefore padAfter =>
      inputSize + padBefore + padAfter

def backInferInputCoord (outputCoord inputShape : Shape) : Except SEFault Shape :=
  if outputCoord .H < inputShape .H + attr.padding.top + attr.padding.bottom ∧
      outputCoord .W < inputShape .W + attr.padding.left + attr.padding.right then
    let coordTransformFn := getPadCoordinateTransformationFn attr.mode
    .ok fun dim =>
      let outCoord := outputCoord dim
      let inCoord :=
        if dim = .H then coordTransformFn outCoord attr.padding.top (inputShape dim)
        else if dim = .W then coordTransformFn outCoord attr.padding.left (inputShape dim)
        else outCoord
      clamp inCoord 0 (inputShape dim - 1)
  else .error (.unexpectedOutputCoordinate outputCoord)

def getCoordLocation (coord : Int) (dim : Dim) (padBeginValue : Int) (inputShape : Shape) :
    CoordLocation :=
  if dim = .H ∨ dim = .W then
    if coord < padBeginValue then .padBegin
    else if coord ≥ inputShape dim + padBeginValue then .padEnd
    else .inData
  else .inData

/-- What one axis of a tile becomes. -/
structure AxisTile where
  inputTileShape : Int
  inputTileOffset : Int
  relativeOffset : Int
deriving DecidableEq, Repr

/-- The six scenarios of one axis: `first` and `last` are the input coordinates of the first and of
the last position of the tile. -/
def extractAxis (mode : PadMode) (padBeginValue inputSize outputTileOffset first last : Int) :
    CoordLocation → CoordLocation → Except SEFault AxisTile
  | .padBegin, .padBegin =>
    if mode = .REFLECT then .ok ⟨first - last + 1 + 1, last - 1, padBeginValue + 1⟩
    else .ok ⟨first - last + 1, last, padBeginValue⟩
  | .padBegin, .inData => .ok ⟨max first last + 1, 0, outputTileOffset⟩
  | .padBegin, .padEnd => .ok ⟨inputSize, 0, outputTileOffset⟩
  | .inData, .inData => .ok ⟨last - first + 1, first, padBeginValue⟩
  | .inData, .padEnd => .ok ⟨inputSize - min first last, min first last, padBeginValue⟩
  | .padEnd, .padEnd =>
    if mode = .REFLECT then .ok ⟨first - last + 1 + 1, last, padBeginValue + first - last + 1 + 1⟩
    else .ok ⟨first - last + 1, last, padBeginValue + first - last + 1⟩
  | _, _ => .error .unexpectedTile

def padBeginValue (dim : Dim) : Int :=
  if dim = .H then attr.padding.top else if dim = .W then attr.padding.left else 0

def extractTile (outputTileOffset outputTileShape inputShape : Shape) :
    Except SEFault (SETile SEPaddingAttr) := do
  let outputTileEnd : Shape := fun dim => outputTileOffset dim + outputTileShape dim - 1
  let inputTileStart ← attr.backInferInputCoord outputTileOffset inputShape
  let inputTileEnd ← attr.backInferInputCoord outputTileEnd inputShape
  let axis := fun dim =>
    extractAxis attr.mode (attr.padBeginValue dim) (inputShape dim) (outputTileOffset dim)
      (inputTileStart dim) (inputTileEnd dim)
      (getCoordLocation (outputTileOffset dim) dim (attr.padBeginValue dim) inputShape)
      (getCoordLocation (outputTileEnd dim) dim (attr.padBeginValue dim) inputShape)
  let batch ← axis .N
  let channels ← axis .C
  let height ← axis .H
  let width ← axis .W
  return {
    inputTileOffset := Shape.of batch.inputTileOffset channels.inputTileOffset
      height.inputTileOffset width.inputTileOffset
    inputTileShape := Shape.of batch.inputTileShape channels.inputTileShape
      height.inputTileShape width.inputTileShape
    attr := { attr with
      offsets := some (Shape.of batch.relativeOffset channels.relativeOffset
        height.relativeOffset width.relativeOffset)
      sizes := some outputTileShape } }

instance : SEAttrInterface SEPaddingAttr where
  getOffsets := offsets
  inferOutputShape := inferOutputShape
  backInferInputCoord := backInferInputCoord
  extractTile := extractTile

/-! ### One axis -/

/-- What a position of a padded axis reads. -/
def padRead (mode : PadMode) (padBegin inputSize coord : Int) : Int :=
  clamp (getPadCoordinateTransformationFn mode coord padBegin inputSize) 0 (inputSize - 1)

section

variable {padBegin inputSize coord distance : Int} (mode : PadMode)

theorem padRead_inData (begins : padBegin ≤ coord) (ends : coord < padBegin + inputSize) :
    padRead mode padBegin inputSize coord = coord - padBegin := by
  have transformed : getPadCoordinateTransformationFn mode coord padBegin inputSize =
      coord - padBegin := by
    cases mode with
    | CONSTANT | EDGE | REFLECT | SYMMETRIC =>
      exact (if_neg begins.not_gt).trans (if_neg ends.not_ge)
  unfold padRead
  rw [transformed, clamp_eq (by omega)]
  omega

/-- The border is repeated, or the data are mirrored at it, with or without the border itself. -/
def readBefore : PadMode → Int → Int
  | .CONSTANT, _ | .EDGE, _ => 0
  | .REFLECT, distance => distance
  | .SYMMETRIC, distance => distance - 1

theorem readBefore_nonneg (pos : 0 < distance) : 0 ≤ readBefore mode distance := by
  cases mode with
  | CONSTANT | EDGE => exact le_rfl
  | REFLECT => exact pos.le
  | SYMMETRIC => exact show 0 ≤ distance - 1 by omega

theorem padRead_before (before : coord < padBegin) (pos : 0 < inputSize) :
    padRead mode padBegin inputSize coord =
      min (inputSize - 1) (readBefore mode (padBegin - coord)) := by
  have transformed : getPadCoordinateTransformationFn mode coord padBegin inputSize =
      readBefore mode (padBegin - coord) := by
    cases mode with
    | CONSTANT | EDGE | REFLECT | SYMMETRIC => exact if_pos before
  unfold padRead
  rw [transformed, clamp_eq (by omega), max_eq_right (readBefore_nonneg mode (by omega))]

theorem padRead_after (after : padBegin + inputSize ≤ coord) (pos : 0 < inputSize) :
    padRead mode padBegin inputSize coord =
      max 0 (inputSize - 1 - readBefore mode (coord - (padBegin + inputSize) + 1)) := by
  have transformed : getPadCoordinateTransformationFn mode coord padBegin inputSize =
      inputSize - 1 - readBefore mode (coord - (padBegin + inputSize) + 1) := by
    cases mode with
    | CONSTANT | EDGE =>
      refine (if_neg (by omega)).trans ((if_pos (by omega)).trans ?_)
      exact (sub_zero _).symm
    | REFLECT =>
      refine (if_neg (by omega)).trans ((if_pos (by omega)).trans ?_)
      exact show _ = inputSize - 1 - (coord - (padBegin + inputSize) + 1) by omega
    | SYMMETRIC =>
      refine (if_neg (by omega)).trans ((if_pos (by omega)).trans ?_)
      exact show _ = inputSize - 1 - (coord - (padBegin + inputSize) + 1 - 1) by omega
  have nonneg : 0 ≤ readBefore mode (coord - (padBegin + inputSize) + 1) :=
    readBefore_nonneg mode (by omega)
  unfold padRead
  rw [transformed, clamp_eq (by omega)]
  omega

end

variable {distance inputSize : Int} (mode : PadMode)

theorem readBefore_mono {near far : Int} (ordered : near ≤ far) :
    readBefore mode near ≤ readBefore mode far := by
  cases mode with
  | CONSTANT | EDGE => exact le_rfl
  | REFLECT => exact ordered
  | SYMMETRIC => exact sub_le_sub_right ordered 1

/-- The padding is smaller than the input, and for `SYMMETRIC` it is not greater. -/
def PadFits (mode : PadMode) (pad inputSize : Int) : Prop :=
  match mode with
  | .SYMMETRIC => pad ≤ inputSize
  | _ => pad < inputSize

instance (mode : PadMode) (pad inputSize : Int) : Decidable (PadFits mode pad inputSize) :=
  match mode with
  | .SYMMETRIC => inferInstanceAs (Decidable (pad ≤ inputSize))
  | .CONSTANT | .EDGE | .REFLECT => inferInstanceAs (Decidable (pad < inputSize))

theorem PadFits.readBefore_lt {mode : PadMode} {pad : Int} (fits : PadFits mode pad inputSize)
    (pos : 0 < inputSize) (near : distance ≤ pad) : readBefore mode distance < inputSize := by
  cases mode with
  | CONSTANT | EDGE => exact pos
  | REFLECT => exact near.trans_lt fits
  | SYMMETRIC => exact show distance - 1 < inputSize by unfold PadFits at fits; omega

/-- The place of a position of the height or of the width. -/
def location (padBegin inputSize coord : Int) : CoordLocation :=
  if coord < padBegin then .padBegin
  else if coord ≥ inputSize + padBegin then .padEnd
  else .inData

/-- What the tile of one padded axis becomes. -/
def axisTile (mode : PadMode) (padBegin inputSize offset size : Int) : Except SEFault AxisTile :=
  extractAxis mode padBegin inputSize offset (padRead mode padBegin inputSize offset)
    (padRead mode padBegin inputSize (offset + size - 1)) (location padBegin inputSize offset)
    (location padBegin inputSize (offset + size - 1))

/-- A position of the tile is read, and it is what is read there in the whole. -/
def Agrees (mode : PadMode) (padBegin padEnd inputSize offset : Int) (tile : AxisTile)
    (position : Int) : Prop :=
  tile.relativeOffset + position < tile.inputTileShape + padBegin + padEnd ∧
    padRead mode padBegin inputSize (offset + position) =
      tile.inputTileOffset +
        padRead mode padBegin tile.inputTileShape (tile.relativeOffset + position)

theorem agrees_of {mode : PadMode} {padBegin padEnd offset shape first start position : Int}
    (allowed : start + position < shape + padBegin + padEnd)
    (same : padRead mode padBegin inputSize (offset + position) =
      first + padRead mode padBegin shape (start + position)) :
    Agrees mode padBegin padEnd inputSize offset ⟨shape, first, start⟩ position :=
  ⟨allowed, same⟩

/-- How long a tile of the padding at the beginning may be. -/
def beginLimit (mode : PadMode) (padEnd : Int) : Int :=
  match mode with
  | .CONSTANT | .EDGE => padEnd + 1
  | .REFLECT | .SYMMETRIC => 1

/-- A part of a padded axis that is not in the padding at the beginning, unless it is short, and
that, if it goes from the data to the padding at the end, is not mirrored to before its beginning:
it has as many positions in the data as in the padding, and one more for `REFLECT`. -/
structure Reproducible (mode : PadMode) (padBegin padEnd inputSize offset size : Int) : Prop where
  of_begin : offset + size ≤ padBegin → size ≤ beginLimit mode padEnd
  of_end : padBegin ≤ offset → offset < padBegin + inputSize →
    padBegin + inputSize < offset + size →
      readBefore mode (offset + size - (padBegin + inputSize)) < padBegin + inputSize - offset

/-- A padded axis, and a part of it. -/
structure PaddedPart (mode : PadMode) (padBegin padEnd inputSize offset size : Int) : Prop where
  padBegin_nonneg : 0 ≤ padBegin
  padEnd_nonneg : 0 ≤ padEnd
  begin_fits : PadFits mode padBegin inputSize
  end_fits : PadFits mode padEnd inputSize
  offset_nonneg : 0 ≤ offset
  size_pos : 0 < size
  end_le : offset + size ≤ inputSize + padBegin + padEnd

/-- What is to be shown of the tile of an axis. -/
structure Outcome (mode : PadMode) (padBegin padEnd inputSize offset size : Int)
    (tile : AxisTile) : Prop where
  made : axisTile mode padBegin inputSize offset size = .ok tile
  offset_nonneg : 0 ≤ tile.inputTileOffset
  shape_pos : 0 < tile.inputTileShape
  end_le : tile.inputTileOffset + tile.inputTileShape ≤ inputSize
  agrees_iff : (∀ position, 0 ≤ position → position < size →
      Agrees mode padBegin padEnd inputSize offset tile position) ↔
    Reproducible mode padBegin padEnd inputSize offset size

namespace PaddedPart

variable {mode : PadMode} {padBegin padEnd inputSize offset size : Int}

theorem inputSize_pos (part : PaddedPart mode padBegin padEnd inputSize offset size) :
    0 < inputSize := by
  obtain ⟨padBegin_nonneg, -, begin_fits, end_fits, offset_nonneg, size_pos, end_le⟩ := part
  cases mode with
  | CONSTANT | EDGE | REFLECT => exact padBegin_nonneg.trans_lt begin_fits
  | SYMMETRIC =>
    unfold PadFits at begin_fits end_fits
    omega

variable {coord : Int}

theorem location_begin (before : coord < padBegin) :
    location padBegin inputSize coord = .padBegin := if_pos before

theorem location_data (begins : padBegin ≤ coord) (ends : coord < padBegin + inputSize) :
    location padBegin inputSize coord = .inData :=
  (if_neg begins.not_gt).trans (if_neg (by omega))

theorem location_end (pos : 0 < inputSize) (after : padBegin + inputSize ≤ coord) :
    location padBegin inputSize coord = .padEnd :=
  (if_neg (by omega)).trans (if_pos (by omega))

section

variable (part : PaddedPart mode padBegin padEnd inputSize offset size)
include part

theorem data_data (begins : padBegin ≤ offset) (ends : offset + size ≤ padBegin + inputSize) :
    Outcome mode padBegin padEnd inputSize offset size ⟨size, offset - padBegin, padBegin⟩ := by
  obtain ⟨-, padEnd_nonneg, -, -, -, size_pos, -⟩ := part
  refine ⟨?_, by dsimp only; omega, size_pos, by dsimp only; omega, ?_⟩
  · unfold axisTile
    rw [location_data begins (by omega), location_data (by omega) (by omega),
      padRead_inData mode begins (by omega), padRead_inData mode (by omega) (by omega)]
    exact congrArg ok (congrArg (fun shape => AxisTile.mk shape _ _) (by omega))
  · refine ⟨fun _ => ⟨by omega, by omega⟩, fun _ position nonneg below => ?_⟩
    refine agrees_of (by omega) ?_
    rw [padRead_inData mode (by omega) (by omega), padRead_inData mode (by omega) (by omega)]
    omega

theorem begin_data (begins : offset < padBegin) (ends : padBegin < offset + size)
    (inside : offset + size ≤ padBegin + inputSize) :
    Outcome mode padBegin padEnd inputSize offset size
      ⟨max (readBefore mode (padBegin - offset)) (offset + size - 1 - padBegin) + 1, 0,
        offset⟩ := by
  have pos := part.inputSize_pos
  have reach := part.begin_fits.readBefore_lt pos
    (show padBegin - offset ≤ padBegin by linarith [part.offset_nonneg])
  obtain ⟨-, padEnd_nonneg, -, -, -, -, -⟩ := part
  refine ⟨?_, le_rfl, by dsimp only; omega, by dsimp only; omega, ?_⟩
  · unfold axisTile
    rw [location_begin begins, location_data (by omega) (by omega),
      padRead_before mode begins pos, padRead_inData mode (by omega) (by omega),
      min_eq_right (by omega)]
    rfl
  · refine ⟨fun _ => ⟨by omega, by omega⟩, fun _ position nonneg below => ?_⟩
    refine agrees_of (by omega) ?_
    rcases lt_or_ge (offset + position) padBegin with before | data
    · have nearer := readBefore_mono mode
        (show padBegin - (offset + position) ≤ padBegin - offset by omega)
      rw [padRead_before mode before pos, padRead_before mode before (by omega),
        min_eq_right (by omega), min_eq_right (by omega), zero_add]
    · rw [padRead_inData mode data (by omega), padRead_inData mode data (by omega), zero_add]

theorem begin_end (begins : offset < padBegin) (ends : padBegin + inputSize < offset + size) :
    Outcome mode padBegin padEnd inputSize offset size ⟨inputSize, 0, offset⟩ := by
  have pos := part.inputSize_pos
  obtain ⟨-, -, -, -, -, -, end_le⟩ := part
  refine ⟨?_, le_rfl, pos, (zero_add _).le, ?_⟩
  · unfold axisTile
    rw [location_begin begins, location_end pos (by omega)]
    rfl
  · refine ⟨fun _ => ⟨by omega, by omega⟩, fun _ position nonneg below => ?_⟩
    exact agrees_of (by omega) (zero_add _).symm

theorem begin_begin_made (inside : offset + size ≤ padBegin) :
    axisTile mode padBegin inputSize offset size =
        extractAxis mode padBegin inputSize offset (readBefore mode (padBegin - offset))
          (readBefore mode (padBegin - (offset + size - 1))) .padBegin .padBegin ∧
      readBefore mode (padBegin - offset) < inputSize := by
  have pos := part.inputSize_pos
  have first_reach := part.begin_fits.readBefore_lt pos
    (show padBegin - offset ≤ padBegin by linarith [part.offset_nonneg])
  have last_reach := part.begin_fits.readBefore_lt pos
    (show padBegin - (offset + size - 1) ≤ padBegin by
      linarith [part.offset_nonneg, part.size_pos])
  have size_pos := part.size_pos
  refine ⟨?_, first_reach⟩
  unfold axisTile
  rw [location_begin (by omega), location_begin (by omega),
    padRead_before mode (by omega) pos, padRead_before mode (by omega) pos,
    min_eq_right (by omega), min_eq_right (by omega)]

theorem begin_begin_mirrored (inside : offset + size ≤ padBegin) {border : Int}
    (small : 0 ≤ border ∧ border ≤ 1)
    (reads : ∀ distance, readBefore mode distance = distance - border)
    (limit : beginLimit mode padEnd = 1)
    (extracted : ∀ first last, extractAxis mode padBegin inputSize offset first last
      .padBegin .padBegin = .ok ⟨first - last + 2 - border, last - 1 + border,
        padBegin + 1 - border⟩) :
    ∃ tile, Outcome mode padBegin padEnd inputSize offset size tile := by
  obtain ⟨made, reach⟩ := part.begin_begin_made inside
  have pos := part.inputSize_pos
  obtain ⟨padBegin_nonneg, padEnd_nonneg, -, -, offset_nonneg, size_pos, end_le⟩ := part
  rw [extracted, reads, reads] at made
  rw [reads] at reach
  refine ⟨_, made, by dsimp only; omega, by dsimp only; omega, by dsimp only; omega,
    fun agrees => ⟨fun _ => ?_, by omega⟩, fun reproducible position nonneg below => ?_⟩
  · have same := (agrees 0 le_rfl size_pos).2
    dsimp only at same
    rw [padRead_before _ (by omega) pos, padRead_inData _ (by omega) (by omega), reads]
      at same
    omega
  · have short := reproducible.of_begin inside
    refine agrees_of (by omega) ?_
    rw [padRead_before _ (by omega) pos, padRead_inData _ (by omega) (by omega), reads]
    omega

theorem begin_begin (inside : offset + size ≤ padBegin) :
    ∃ tile, Outcome mode padBegin padEnd inputSize offset size tile := by
  have made := (part.begin_begin_made inside).1
  cases mode with
  | CONSTANT | EDGE =>
    have pos := part.inputSize_pos
    obtain ⟨-, -, -, -, -, size_pos, -⟩ := part
    refine ⟨⟨1, 0, padBegin⟩, made, le_rfl, one_pos, pos, fun agrees => ⟨?_, ?_⟩, ?_⟩
    · intro _
      have allowed : padBegin + (size - 1) < 1 + padBegin + padEnd :=
        (agrees (size - 1) (by omega) (by omega)).1
      exact show size ≤ padEnd + 1 by omega
    · omega
    · intro reproducible position nonneg below
      have short : size ≤ padEnd + 1 := reproducible.of_begin inside
      refine agrees_of (by omega) ?_
      rw [padRead_before _ (by omega) pos]
      rcases lt_or_ge position 1 with single | longer
      · rw [padRead_inData _ (by omega) (by omega)]
        exact show min (inputSize - 1) 0 = _ by omega
      · rw [padRead_after _ (by omega) one_pos]
        exact show min (inputSize - 1) 0 = 0 + max 0 (1 - 1 - 0) by omega
  | REFLECT =>
    refine part.begin_begin_mirrored inside ⟨le_rfl, zero_le_one⟩
      (fun distance => (sub_zero distance).symm) rfl fun first last => ?_
    exact congrArg ok (AxisTile.mk.injEq .. ▸ by omega)
  | SYMMETRIC =>
    refine part.begin_begin_mirrored inside ⟨zero_le_one, le_rfl⟩ (fun distance => rfl) rfl
      fun first last => ?_
    exact congrArg ok (AxisTile.mk.injEq .. ▸ by omega)

theorem data_end (begins : padBegin ≤ offset) (inside : offset < padBegin + inputSize)
    (ends : padBegin + inputSize < offset + size) :
    ∃ tile, Outcome mode padBegin padEnd inputSize offset size tile := by
  have pos := part.inputSize_pos
  have reach := part.end_fits.readBefore_lt pos
    (show offset + size - (padBegin + inputSize) ≤ padEnd by linarith [part.end_le])
  obtain ⟨-, -, -, -, -, size_pos, end_le⟩ := part
  have last : padRead mode padBegin inputSize (offset + size - 1) =
      inputSize - 1 - readBefore mode (offset + size - (padBegin + inputSize)) := by
    rw [padRead_after mode (by omega) pos,
      show offset + size - 1 - (padBegin + inputSize) + 1 = offset + size - (padBegin + inputSize)
        by omega]
    omega
  have made : axisTile mode padBegin inputSize offset size = .ok
      ⟨inputSize - min (offset - padBegin)
          (inputSize - 1 - readBefore mode (offset + size - (padBegin + inputSize))),
        min (offset - padBegin)
          (inputSize - 1 - readBefore mode (offset + size - (padBegin + inputSize))),
        padBegin⟩ := by
    unfold axisTile
    rw [location_data begins inside, location_end pos (by omega), last,
      padRead_inData mode begins inside]
    rfl
  refine ⟨_, made, by dsimp only; omega, by dsimp only; omega, by dsimp only; omega,
    fun agrees => ⟨by omega, fun _ _ _ => ?_⟩, fun reproducible position nonneg below => ?_⟩
  · have same := (agrees 0 le_rfl size_pos).2
    dsimp only at same
    rw [padRead_inData mode (by omega) (by omega), padRead_inData mode (by omega) (by omega)]
      at same
    omega
  · have short := reproducible.of_end begins inside ends
    rw [min_eq_left (by omega)]
    refine agrees_of (by omega) ?_
    rcases lt_or_ge (offset + position) (padBegin + inputSize) with data | after
    · rw [padRead_inData mode (by omega) data, padRead_inData mode (by omega) (by omega)]
      omega
    · have nearer := readBefore_mono mode
        (show offset + position - (padBegin + inputSize) + 1 ≤
          offset + size - (padBegin + inputSize) by omega)
      have distance : padBegin + position - (padBegin + (inputSize - (offset - padBegin))) + 1 =
          offset + position - (padBegin + inputSize) + 1 := by omega
      rw [padRead_after mode after pos, padRead_after mode (by omega) (by omega), distance]
      omega

theorem end_end_made (after : padBegin + inputSize ≤ offset) :
    axisTile mode padBegin inputSize offset size =
        extractAxis mode padBegin inputSize offset
          (inputSize - 1 - readBefore mode (offset - (padBegin + inputSize) + 1))
          (inputSize - 1 - readBefore mode (offset + size - (padBegin + inputSize)))
          .padEnd .padEnd ∧
      readBefore mode (offset + size - (padBegin + inputSize)) < inputSize := by
  have pos := part.inputSize_pos
  have size_pos := part.size_pos
  have reach := part.end_fits.readBefore_lt pos
    (show offset + size - (padBegin + inputSize) ≤ padEnd by linarith [part.end_le])
  have nearer := readBefore_mono mode
    (show offset - (padBegin + inputSize) + 1 ≤ offset + size - (padBegin + inputSize) by omega)
  refine ⟨?_, reach⟩
  unfold axisTile
  rw [location_end pos after, location_end pos (by omega),
    padRead_after mode after pos, padRead_after mode (by omega) pos,
    show offset + size - 1 - (padBegin + inputSize) + 1 = offset + size - (padBegin + inputSize)
      by omega, max_eq_right (by omega), max_eq_right (by omega)]

theorem end_end_mirrored (after : padBegin + inputSize ≤ offset) {border : Int}
    (small : 0 ≤ border ∧ border ≤ 1)
    (reads : ∀ distance, readBefore mode distance = distance - border)
    (extracted : ∀ first last, extractAxis mode padBegin inputSize offset first last
      .padEnd .padEnd = .ok ⟨first - last + 2 - border, last,
        padBegin + first - last + 2 - border⟩) :
    ∃ tile, Outcome mode padBegin padEnd inputSize offset size tile := by
  obtain ⟨made, reach⟩ := part.end_end_made after
  have pos := part.inputSize_pos
  obtain ⟨padBegin_nonneg, padEnd_nonneg, -, -, offset_nonneg, size_pos, end_le⟩ := part
  rw [extracted, reads, reads] at made
  rw [reads] at reach
  refine ⟨_, made, by dsimp only; omega, by dsimp only; omega, by dsimp only; omega,
    fun _ => ⟨by omega, by omega⟩, fun _ position nonneg below => agrees_of (by omega) ?_⟩
  rw [padRead_after _ (by omega) pos, padRead_after _ (by omega) (by omega), reads, reads]
  omega

theorem end_end (after : padBegin + inputSize ≤ offset) :
    ∃ tile, Outcome mode padBegin padEnd inputSize offset size tile := by
  have made := (part.end_end_made after).1
  cases mode with
  | CONSTANT | EDGE =>
    have pos := part.inputSize_pos
    obtain ⟨-, -, -, -, -, size_pos, end_le⟩ := part
    refine ⟨⟨1, inputSize - 1 - 0, padBegin + 1⟩, ?_, by dsimp only; omega, one_pos,
      by dsimp only; omega, fun _ => ⟨by omega, by omega⟩, fun _ position nonneg below => ?_⟩
    · rw [made]
      refine congrArg ok (congrArg₂ (fun shape start => AxisTile.mk shape _ start) ?_ ?_)
      · exact show inputSize - 1 - 0 - (inputSize - 1 - 0) + 1 = 1 by omega
      · exact show padBegin + (inputSize - 1 - 0) - (inputSize - 1 - 0) + 1 = padBegin + 1 by omega
    · refine agrees_of (by omega) ?_
      rw [padRead_after _ (by omega) pos, padRead_after _ (by omega) one_pos]
      exact show max 0 (inputSize - 1 - 0) = inputSize - 1 - 0 + max 0 (1 - 1 - 0) by omega
  | REFLECT =>
    refine part.end_end_mirrored after ⟨le_rfl, zero_le_one⟩
      (fun distance => (sub_zero distance).symm) fun first last => ?_
    exact congrArg ok (AxisTile.mk.injEq .. ▸ by omega)
  | SYMMETRIC =>
    refine part.end_end_mirrored after ⟨zero_le_one, le_rfl⟩ (fun distance => rfl)
      fun first last => ?_
    exact congrArg ok (AxisTile.mk.injEq .. ▸ by omega)

/-- By where a part of a padded axis begins and where it ends. -/
theorem exists_outcome : ∃ tile, Outcome mode padBegin padEnd inputSize offset size tile := by
  rcases lt_or_ge offset padBegin with begins | begins
  · rcases le_or_gt (offset + size) padBegin with inside | ends
    · exact part.begin_begin inside
    · rcases le_or_gt (offset + size) (padBegin + inputSize) with inside | beyond
      · exact ⟨_, part.begin_data begins ends inside⟩
      · exact ⟨_, part.begin_end begins beyond⟩
  · rcases lt_or_ge offset (padBegin + inputSize) with inside | after
    · rcases le_or_gt (offset + size) (padBegin + inputSize) with within | beyond
      · exact ⟨_, part.data_data begins within⟩
      · exact part.data_end begins inside beyond
    · exact part.end_end after

end

end PaddedPart

/-! ### All axes -/

/-- What a position of an axis reads. -/
def axisRead (attr : SEPaddingAttr) (dim : Dim) (inputSize coord : Int) : Int :=
  match dim with
  | .H => padRead attr.mode attr.padding.top inputSize coord
  | .W => padRead attr.mode attr.padding.left inputSize coord
  | _ => clamp coord 0 (inputSize - 1)

variable {outputCoord inputShape : Shape}

theorem backInferInputCoord_eq (attr : SEPaddingAttr)
    (height : outputCoord .H < inputShape .H + attr.padding.top + attr.padding.bottom)
    (width : outputCoord .W < inputShape .W + attr.padding.left + attr.padding.right) :
    attr.backInferInputCoord outputCoord inputShape =
      .ok fun dim => attr.axisRead dim (inputShape dim) (outputCoord dim) := by
  refine (if_pos ⟨height, width⟩).trans (congrArg ok (funext fun dim => ?_))
  cases dim <;> rfl

theorem of_backInferInputCoord {attr : SEPaddingAttr} {read : Shape}
    (inferred : attr.backInferInputCoord outputCoord inputShape = .ok read) :
    outputCoord .H < inputShape .H + attr.padding.top + attr.padding.bottom ∧
      outputCoord .W < inputShape .W + attr.padding.left + attr.padding.right := by
  by_contra refused
  have thrown : attr.backInferInputCoord outputCoord inputShape =
      .error (.unexpectedOutputCoordinate outputCoord) := if_neg refused
  rw [thrown] at inferred
  cases inferred

/-- The pads of an attribute fit the input. -/
structure Fits (attr : SEPaddingAttr) (inputShape : Shape) : Prop where
  top : PadFits attr.mode attr.padding.top (inputShape .H)
  bottom : PadFits attr.mode attr.padding.bottom (inputShape .H)
  left : PadFits attr.mode attr.padding.left (inputShape .W)
  right : PadFits attr.mode attr.padding.right (inputShape .W)

section

variable {attr : SEPaddingAttr} {inputShape outputTileOffset outputTileShape : Shape}

section

variable (fits : attr.Fits inputShape) (sizes : attr.sizes = none)
  (part : IsPart (attr.inferOutputShape inputShape) outputTileOffset outputTileShape)
include fits sizes part

theorem Fits.height :
    PaddedPart attr.mode attr.padding.top attr.padding.bottom (inputShape .H)
      (outputTileOffset .H) (outputTileShape .H) := by
  unfold inferOutputShape at part
  rw [sizes] at part
  exact ⟨natCast_nonneg _, natCast_nonneg _, fits.top, fits.bottom,
    part.offset_nonneg .H, part.extents_pos .H, part.end_le .H⟩

theorem Fits.width :
    PaddedPart attr.mode attr.padding.left attr.padding.right (inputShape .W)
      (outputTileOffset .W) (outputTileShape .W) := by
  unfold inferOutputShape at part
  rw [sizes] at part
  exact ⟨natCast_nonneg _, natCast_nonneg _, fits.left, fits.right,
    part.offset_nonneg .W, part.extents_pos .W, part.end_le .W⟩

end

def madeTile (attr : SEPaddingAttr) (outputTileOffset outputTileShape : Shape)
    (height width : AxisTile) : SETile SEPaddingAttr where
  inputTileOffset := Shape.of (outputTileOffset .N) (outputTileOffset .C)
    height.inputTileOffset width.inputTileOffset
  inputTileShape := Shape.of (outputTileShape .N) (outputTileShape .C)
    height.inputTileShape width.inputTileShape
  attr := { attr with
    offsets := some (Shape.of 0 0 height.relativeOffset width.relativeOffset)
    sizes := some outputTileShape }

variable {offset size : Int}

theorem extractAxis_unpadded (nonneg : 0 ≤ offset) (pos : 0 < size)
    (ends : offset + size ≤ inputSize) :
    extractAxis mode 0 inputSize offset (clamp offset 0 (inputSize - 1))
      (clamp (offset + size - 1) 0 (inputSize - 1)) .inData .inData = .ok ⟨size, offset, 0⟩ := by
  have first : clamp offset 0 (inputSize - 1) = offset := by
    rw [clamp_eq (by omega)]
    omega
  have last : clamp (offset + size - 1) 0 (inputSize - 1) = offset + size - 1 := by
    rw [clamp_eq (by omega)]
    omega
  rw [first, last]
  exact congrArg ok (congrArg (fun shape => AxisTile.mk shape _ _) (by omega))

theorem unpadded_read {position : Int} (nonneg : 0 ≤ offset) (ends : offset + size ≤ inputSize)
    (within : 0 ≤ position ∧ position < size) :
    clamp (offset + position) 0 (inputSize - 1) = offset + clamp (0 + position) 0 (size - 1) := by
  rw [clamp_eq (by omega), clamp_eq (by omega)]
  omega

theorem extractTile_eq (sizes : attr.sizes = none)
    (part : IsPart (attr.inferOutputShape inputShape) outputTileOffset outputTileShape)
    {height width : AxisTile}
    (height_made : axisTile attr.mode attr.padding.top (inputShape .H) (outputTileOffset .H)
      (outputTileShape .H) = .ok height)
    (width_made : axisTile attr.mode attr.padding.left (inputShape .W) (outputTileOffset .W)
      (outputTileShape .W) = .ok width) :
    attr.extractTile outputTileOffset outputTileShape inputShape =
      .ok (attr.madeTile outputTileOffset outputTileShape height width) := by
  unfold inferOutputShape at part
  rw [sizes] at part
  have height_pos := part.extents_pos .H
  have width_pos := part.extents_pos .W
  have height_end : outputTileOffset .H + outputTileShape .H ≤
      inputShape .H + attr.padding.top + attr.padding.bottom := part.end_le .H
  have width_end : outputTileOffset .W + outputTileShape .W ≤
      inputShape .W + attr.padding.left + attr.padding.right := part.end_le .W
  refine (ok_bind (attr.backInferInputCoord_eq (by omega) (by omega)) _).trans ?_
  refine (ok_bind (attr.backInferInputCoord_eq (by omega) (by omega)) _).trans ?_
  refine (ok_bind (extractAxis_unpadded attr.mode (part.offset_nonneg .N)
    (part.extents_pos .N) (part.end_le .N)) _).trans ?_
  refine (ok_bind (extractAxis_unpadded attr.mode (part.offset_nonneg .C)
    (part.extents_pos .C) (part.end_le .C)) _).trans ?_
  refine (ok_bind height_made _).trans ?_
  exact ok_bind width_made _

/-- A tile of a padded table is reproduced by its input tile exactly when it is on both axes. -/
theorem padded_tile_reproduced_iff (sizes : attr.sizes = none) (fits : attr.Fits inputShape)
    (part : IsPart (attr.inferOutputShape inputShape) outputTileOffset outputTileShape) :
    (∃ tile, attr.extractTile outputTileOffset outputTileShape inputShape = .ok tile ∧
        Reproduces attr inputShape outputTileOffset outputTileShape tile) ↔
      Reproducible attr.mode attr.padding.top attr.padding.bottom (inputShape .H)
          (outputTileOffset .H) (outputTileShape .H) ∧
        Reproducible attr.mode attr.padding.left attr.padding.right (inputShape .W)
          (outputTileOffset .W) (outputTileShape .W) := by
  have height_part := fits.height sizes part
  have width_part := fits.width sizes part
  obtain ⟨height, height_outcome⟩ := height_part.exists_outcome
  obtain ⟨width, width_outcome⟩ := width_part.exists_outcome
  rw [extractTile_eq sizes part height_outcome.made width_outcome.made, ← height_outcome.agrees_iff,
    ← width_outcome.agrees_iff]
  have height_end := height_part.end_le
  have width_end := width_part.end_le
  constructor
  · rintro ⟨tile, extracted, reproduces⟩
    cases extracted
    have axes : ∀ coordinate, Inside outputTileShape coordinate →
        Agrees attr.mode attr.padding.top attr.padding.bottom (inputShape .H)
            (outputTileOffset .H) height (coordinate .H) ∧
          Agrees attr.mode attr.padding.left attr.padding.right (inputShape .W)
            (outputTileOffset .W) width (coordinate .W) := by
      intro coordinate within
      obtain ⟨read, of_tile, of_whole⟩ := reproduces.reads coordinate within
      obtain ⟨height_allowed, width_allowed⟩ := of_backInferInputCoord of_tile
      have tile_read := (backInferInputCoord_eq _ height_allowed width_allowed).symm.trans of_tile
      obtain ⟨height_whole, width_whole⟩ := of_backInferInputCoord of_whole
      have whole_read := (backInferInputCoord_eq _ height_whole width_whole).symm.trans of_whole
      rw [← ok.inj tile_read] at whole_read
      exact ⟨⟨height_allowed, congrFun (ok.inj whole_read) .H⟩,
        width_allowed, congrFun (ok.inj whole_read) .W⟩
    constructor
    · intro position nonneg below
      obtain ⟨coordinate, within, at_height⟩ := exists_inside_at part.extents_pos nonneg below
      exact at_height ▸ (axes coordinate within).1
    · intro position nonneg below
      obtain ⟨coordinate, within, at_width⟩ := exists_inside_at part.extents_pos nonneg below
      exact at_width ▸ (axes coordinate within).2
  · rintro ⟨height_agrees, width_agrees⟩
    unfold inferOutputShape at part
    rw [sizes] at part
    refine ⟨_, rfl, ⟨fun dim => ?_, fun dim => ?_, fun dim => ?_⟩, fun coordinate within => ?_⟩
    · cases dim with
      | N => exact part.offset_nonneg .N
      | C => exact part.offset_nonneg .C
      | H => exact height_outcome.offset_nonneg
      | W => exact width_outcome.offset_nonneg
    · cases dim with
      | N => exact part.extents_pos .N
      | C => exact part.extents_pos .C
      | H => exact height_outcome.shape_pos
      | W => exact width_outcome.shape_pos
    · cases dim with
      | N => exact part.end_le .N
      | C => exact part.end_le .C
      | H => exact height_outcome.end_le
      | W => exact width_outcome.end_le
    · have at_height := height_agrees (coordinate .H) (within .H).1 (within .H).2
      have at_width := width_agrees (coordinate .W) (within .W).1 (within .W).2
      have below_height := (within .H).2
      have below_width := (within .W).2
      have whole_height : (outputTileOffset + coordinate) .H <
          inputShape .H + attr.padding.top + attr.padding.bottom := by
        rw [Pi.add_apply]
        omega
      have whole_width : (outputTileOffset + coordinate) .W <
          inputShape .W + attr.padding.left + attr.padding.right := by
        rw [Pi.add_apply]
        omega
      refine ⟨_, backInferInputCoord_eq _ at_height.1 at_width.1,
        (attr.backInferInputCoord_eq whole_height whole_width).trans
          (congrArg ok (funext fun dim => ?_))⟩
      cases dim with
      | N => exact unpadded_read (part.offset_nonneg .N) (part.end_le .N) (within .N)
      | C => exact unpadded_read (part.offset_nonneg .C) (part.end_le .C) (within .C)
      | H => exact at_height.2
      | W => exact at_width.2

end

/-- The last three rows of three rows that are reflected, as in the data and then after them. -/
def reflectedRows : SEPaddingAttr := ⟨.REFLECT, ⟨1, 2, 2, 1⟩, none, none⟩

theorem reflectedRows_reproduced :
    ∃ tile, reflectedRows.extractTile (Shape.of 0 0 3 0) (Shape.of 1 16 3 6)
        (Shape.of 1 16 3 3) = .ok tile ∧
      Reproduces reflectedRows (Shape.of 1 16 3 3) (Shape.of 0 0 3 0) (Shape.of 1 16 3 6) tile :=
  (padded_tile_reproduced_iff rfl ⟨by decide, by decide, by decide, by decide⟩
    (by decide)).mpr ⟨⟨by decide, by decide⟩, ⟨by decide, by decide⟩⟩

/-- The first two rows of the same table are those that are reflected, in the other order. -/
theorem reflectedRows_begin_not_reproduced :
    reflectedRows.Fits (Shape.of 1 16 3 3) ∧
      IsPart (reflectedRows.inferOutputShape (Shape.of 1 16 3 3)) (Shape.of 0 0 0 0)
        (Shape.of 1 16 2 6) ∧
      ∃ tile, reflectedRows.extractTile (Shape.of 0 0 0 0) (Shape.of 1 16 2 6)
          (Shape.of 1 16 3 3) = .ok tile ∧
        ¬ Reproduces reflectedRows (Shape.of 1 16 3 3) (Shape.of 0 0 0 0) (Shape.of 1 16 2 6)
          tile := by
  refine ⟨⟨by decide, by decide, by decide, by decide⟩, by decide, _, rfl, fun reproduces => ?_⟩
  obtain ⟨read, of_tile, of_whole⟩ := reproduces.reads (Shape.of 0 0 0 0) (by decide)
  cases of_tile
  exact absurd (congrFun (ok.inj of_whole) .H) (by decide)

end SEPaddingAttr

end NpuPlugin.SEAttributes
