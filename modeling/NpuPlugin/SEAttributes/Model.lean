/-
This file models the attributes of a storage element table. An attribute says which element of the
input data every element of the table points to, and it can be tiled: a part of the table is the
table of a part of the input data under another attribute.
-/

import Mathlib.Tactic.Linarith
import NpuPlugin.Library.Spans

namespace NpuPlugin.SEAttributes

open Boxes Except Int

inductive Dim
  | N
  | C
  | H
  | W
deriving DecidableEq, Repr

abbrev Shape := Dim → Int

def Shape.of (n c h w : Int) : Shape
  | .N => n
  | .C => c
  | .H => h
  | .W => w

instance Dim.decidableForall {holds : Dim → Prop} [∀ dim, Decidable (holds dim)] :
    Decidable (∀ dim, holds dim) :=
  decidable_of_iff (holds .N ∧ holds .C ∧ holds .H ∧ holds .W)
    ⟨fun ⟨batch, channel, height, width⟩ dim => by cases dim <;> assumption,
      fun all => ⟨all .N, all .C, all .H, all .W⟩⟩

instance : DecidableEq Shape := fun first second =>
  decidable_of_iff (∀ dim, first dim = second dim) funext_iff.symm

instance (extents coordinate : Shape) : Decidable (Inside extents coordinate) :=
  inferInstanceAs (Decidable (∀ dim, 0 ≤ coordinate dim ∧ coordinate dim < extents dim))

instance (whole offset extents : Shape) : Decidable (IsPart whole offset extents) :=
  decidable_of_iff
    ((∀ dim, 0 ≤ offset dim) ∧ (∀ dim, 0 < extents dim) ∧
      ∀ dim, offset dim + extents dim ≤ whole dim)
    ⟨fun ⟨nonneg, pos, ends⟩ => ⟨nonneg, pos, ends⟩,
      fun part => ⟨part.offset_nonneg, part.extents_pos, part.end_le⟩⟩

/-- What is thrown: "Get unexpected output coordinate {0}", "illegal min/max values" and "Got
unexpected tiled offsets and tiled shape of output". -/
inductive SEFault
  | unexpectedOutputCoordinate (outputCoord : Shape)
  | illegalMinMaxValues
  | unexpectedTile
deriving DecidableEq

def clamp (value low high : Int) : Int :=
  if value < low then low else if high < value then high else value

theorem clamp_eq {value low high : Int} (ordered : low ≤ high) :
    clamp value low high = min high (max low value) := by
  unfold clamp
  split_ifs <;> omega

theorem clamp_bounds (value : Int) {low high : Int} (ordered : low ≤ high) :
    low ≤ clamp value low high ∧ clamp value low high ≤ high := by
  rw [clamp_eq ordered]
  omega

/-- The `padding` of an attribute: `verify` refuses negative ones. -/
structure Padding where
  left : Nat
  top : Nat
  right : Nat
  bottom : Nat
deriving DecidableEq, Repr

/-- What `extractTile` returns, with what it writes to its reference parameters. -/
structure SETile (Attr : Type) where
  inputTileOffset : Shape
  inputTileShape : Shape
  attr : Attr

class SEAttrInterface (Attr : Type) where
  getOffsets : Attr → Option Shape
  inferOutputShape : Attr → Shape → Shape
  backInferInputCoord : Attr → Shape → Shape → Except SEFault Shape
  extractTile : Attr → Shape → Shape → Shape → Except SEFault (SETile Attr)

section

variable {Attr : Type} [SEAttrInterface Attr]

open SEAttrInterface

/-- Where a table starts inside of all of the data of its attribute. -/
def outputOffsets (attr : Attr) : Shape := (getOffsets attr).getD 0

/-- With a part of the input data, an attribute for a tile gives what the attribute of the whole
table gives in the tile. -/
structure Reproduces (attr : Attr) (inputShape outputTileOffset outputTileShape : Shape)
    (tile : SETile Attr) : Prop where
  input : IsPart inputShape tile.inputTileOffset tile.inputTileShape
  reads : ∀ coordinate, Inside outputTileShape coordinate → ∃ read,
    backInferInputCoord tile.attr (outputOffsets tile.attr + coordinate) tile.inputTileShape =
        .ok read ∧
      backInferInputCoord attr (outputTileOffset + coordinate) inputShape =
        .ok (tile.inputTileOffset + read)

/-- What `tile.attr` reads is a part of the input tile. -/
def ReadsInside (outputTileShape : Shape) (tile : SETile Attr) : Prop :=
  ∀ coordinate, Inside outputTileShape coordinate → ∃ read,
    backInferInputCoord tile.attr (outputOffsets tile.attr + coordinate) tile.inputTileShape =
        .ok read ∧
      Inside tile.inputTileShape read

end

/-! ### Upsampling -/

/-- `verify` refuses negative factors. -/
structure SEUpsamplingAttr where
  factorH : Nat
  factorW : Nat
  padding : Padding
  offsets : Option Shape
  sizes : Option Shape
deriving DecidableEq

namespace SEUpsamplingAttr

variable (attr : SEUpsamplingAttr)

def inferShapeImpl (shape : Shape) (computeShapeFn : Int → Int → Int → Int → Int) : Shape :=
  let newHeight := computeShapeFn (shape .H) attr.factorH attr.padding.top attr.padding.bottom
  let newWidth := computeShapeFn (shape .W) attr.factorW attr.padding.left attr.padding.right
  Shape.of (shape .N) (shape .C) newHeight newWidth

/-- All that the attribute makes of an input. -/
def inferFullOutputShape (inputShape : Shape) : Shape :=
  attr.inferShapeImpl inputShape fun inputSize factor padBefore padAfter =>
    inputSize + factor * (inputSize - 1) + padBefore + padAfter

def inferOutputShape (inputShape : Shape) : Shape :=
  let outputShape := attr.inferFullOutputShape inputShape
  if attr.offsets = none ∧ attr.sizes = none then outputShape
  else
    let offsets := attr.offsets.getD 0
    let sizes := attr.sizes.getD outputShape
    fun idx => min (outputShape idx - offsets idx) (sizes idx)

/-- The input of one position of the height or of the width. -/
def inputPosition (outputPosition padBefore factor inputSize : Int) : Int :=
  let position := outputPosition - padBefore
  let position := if position ≥ 0 then position.tdiv (factor + 1) else position
  clamp position 0 (inputSize - 1)

def backInferInputCoord (outputCoord inputShape : Shape) : Shape :=
  let inputH := inputPosition (outputCoord .H) attr.padding.top attr.factorH (inputShape .H)
  let inputW := inputPosition (outputCoord .W) attr.padding.left attr.factorW (inputShape .W)
  Shape.of (outputCoord .N) (outputCoord .C) inputH inputW

/-- The padding, for a tile that does not begin at the first input position. -/
def padOfInner (inputOffset padBefore : Int) : Int := if inputOffset ≠ 0 then padBefore else 0

def inferOutputTileStartOffset (inputTileOffset : Shape) (seAttr : SEUpsamplingAttr) : Shape :=
  Shape.of (inputTileOffset .N) (inputTileOffset .C)
    (inputTileOffset .H * (seAttr.factorH + 1) + padOfInner (inputTileOffset .H) seAttr.padding.top)
    (inputTileOffset .W * (seAttr.factorW + 1) +
      padOfInner (inputTileOffset .W) seAttr.padding.left)

def extractTile (outputTileOffset outputTileShape inputShape : Shape) : SETile SEUpsamplingAttr :=
  let inputTileOffset := attr.backInferInputCoord outputTileOffset inputShape
  let outputTileEnd : Shape := fun dim => outputTileOffset dim + outputTileShape dim - 1
  let inputTileEnd := attr.backInferInputCoord outputTileEnd inputShape
  let inputTileShape : Shape := fun dim => inputTileEnd dim - inputTileOffset dim + 1
  let outputTileStartOffset := inferOutputTileStartOffset inputTileOffset attr
  let relativeOffsets : Shape := fun dim => outputTileOffset dim - outputTileStartOffset dim
  let relativeOffsets := Shape.of (relativeOffsets .N) (relativeOffsets .C)
    (relativeOffsets .H + padOfInner (inputTileOffset .H) attr.padding.top)
    (relativeOffsets .W + padOfInner (inputTileOffset .W) attr.padding.left)
  let newPadding := { attr.padding with
    right := attr.padding.right + attr.factorW
    bottom := attr.padding.bottom + attr.factorH }
  { inputTileOffset
    inputTileShape
    attr := { attr with
      padding := newPadding
      offsets := some relativeOffsets
      sizes := some outputTileShape } }

instance : SEAttrInterface SEUpsamplingAttr where
  getOffsets := offsets
  inferOutputShape := inferOutputShape
  backInferInputCoord attr outputCoord inputShape :=
    .ok (attr.backInferInputCoord outputCoord inputShape)
  extractTile attr outputTileOffset outputTileShape inputShape :=
    .ok (attr.extractTile outputTileOffset outputTileShape inputShape)

/-! ### One axis -/

variable {outputPosition padBefore factor : Int}

theorem inputPosition_eq {inputSize : Int} (factor_nonneg : 0 ≤ factor)
    (inputSize_pos : 0 < inputSize) :
    inputPosition outputPosition padBefore factor inputSize =
      min (inputSize - 1) (max 0 (outputPosition - padBefore) / (factor + 1)) := by
  unfold inputPosition
  rw [clamp_eq (by omega)]
  refine congrArg (min (inputSize - 1)) ?_
  rcases le_or_gt 0 (outputPosition - padBefore) with behind | before
  · exact (congrArg (max 0) (if_pos behind)).trans (by
      rw [tdiv_eq_ediv_of_nonneg behind, max_eq_right behind,
        max_eq_right (ediv_nonneg behind (by omega))])
  · exact (congrArg (max 0) (if_neg before.not_ge)).trans (by
      rw [max_eq_left before.le, zero_ediv])

theorem inputPosition_bounds (outputPosition padBefore factor : Int) {inputSize : Int}
    (inputSize_pos : 0 < inputSize) :
    0 ≤ inputPosition outputPosition padBefore factor inputSize ∧
      inputPosition outputPosition padBefore factor inputSize ≤ inputSize - 1 :=
  clamp_bounds _ (by omega)

theorem inputPosition_mono {first second inputSize : Int} (padBefore : Int)
    (factor_nonneg : 0 ≤ factor) (inputSize_pos : 0 < inputSize) (ordered : first ≤ second) :
    inputPosition first padBefore factor inputSize ≤
      inputPosition second padBefore factor inputSize := by
  rw [inputPosition_eq factor_nonneg inputSize_pos, inputPosition_eq factor_nonneg inputSize_pos]
  exact min_le_min le_rfl
    (Int.ediv_le_ediv (by omega) (max_le_max le_rfl (by omega)))

section

variable {inputSize : Int} (factor_nonneg : 0 ≤ factor) (inputSize_pos : 0 < inputSize)
include factor_nonneg inputSize_pos

/-- A cell that is read begins before the position, or it is the first one. -/
theorem inputPosition_mul_le :
    inputPosition outputPosition padBefore factor inputSize * (factor + 1) ≤
      max 0 (outputPosition - padBefore) := by
  rw [inputPosition_eq factor_nonneg inputSize_pos]
  calc min (inputSize - 1) (max 0 (outputPosition - padBefore) / (factor + 1)) * (factor + 1)
      ≤ max 0 (outputPosition - padBefore) / (factor + 1) * (factor + 1) :=
        mul_le_mul_of_nonneg_right (min_le_right _ _) (by omega)
    _ ≤ max 0 (outputPosition - padBefore) := Int.ediv_mul_le _ (by omega)

theorem lt_inputPosition_mul
    (inner : inputPosition outputPosition padBefore factor inputSize < inputSize - 1) :
    outputPosition - padBefore <
      (inputPosition outputPosition padBefore factor inputSize + 1) * (factor + 1) := by
  rw [inputPosition_eq factor_nonneg inputSize_pos] at inner ⊢
  rw [min_eq_right (by omega)]
  calc outputPosition - padBefore
      ≤ max 0 (outputPosition - padBefore) := le_max_right _ _
    _ < (max 0 (outputPosition - padBefore) / (factor + 1) + 1) * (factor + 1) :=
        lt_ediv_add_one_mul_self _ (by omega)

end

/-- An axis that is upsampled, and a part of it. -/
structure UpsampledPart (padBefore padAfter factor extent offset size : Int) : Prop where
  padBefore_nonneg : 0 ≤ padBefore
  padAfter_nonneg : 0 ≤ padAfter
  factor_nonneg : 0 ≤ factor
  extent_pos : 0 < extent
  offset_nonneg : 0 ≤ offset
  size_pos : 0 < size
  end_le : offset + size ≤ extent + factor * (extent - 1) + padBefore + padAfter

namespace UpsampledPart

variable {padBefore padAfter factor extent offset size : Int}

/-- The part of the tile's attribute that is the tile. -/
def start (padBefore factor extent offset : Int) : Int :=
  offset - inputPosition offset padBefore factor extent * (factor + 1)

/-- How much input the tile needs. -/
def inputSize (padBefore factor extent offset size : Int) : Int :=
  inputPosition (offset + size - 1) padBefore factor extent -
    inputPosition offset padBefore factor extent + 1

section

variable (part : UpsampledPart padBefore padAfter factor extent offset size)
include part

theorem inputSize_pos : 0 < inputSize padBefore factor extent offset size := by
  have size_pos := part.size_pos
  have ordered := inputPosition_mono padBefore part.factor_nonneg part.extent_pos
    (show offset ≤ offset + size - 1 by omega)
  unfold inputSize
  omega

theorem inputPosition_add_inputSize_le :
    inputPosition offset padBefore factor extent +
      inputSize padBefore factor extent offset size ≤ extent := by
  have bounds := inputPosition_bounds (offset + size - 1) padBefore factor part.extent_pos
  unfold inputSize
  omega

theorem start_nonneg : 0 ≤ start padBefore factor extent offset := by
  have offset_nonneg := part.offset_nonneg
  have padBefore_nonneg := part.padBefore_nonneg
  have begins : inputPosition offset padBefore factor extent * (factor + 1) ≤
      max 0 (offset - padBefore) := inputPosition_mul_le part.factor_nonneg part.extent_pos
  unfold start
  omega

theorem start_add_size_le :
    start padBefore factor extent offset + size ≤
      inputSize padBefore factor extent offset size +
        factor * (inputSize padBefore factor extent offset size - 1) + padBefore +
          (padAfter + factor) := by
  obtain ⟨-, padAfter_nonneg, factor_nonneg, extent_pos, -, -, end_le⟩ := part
  have last_bounds := inputPosition_bounds (offset + size - 1) padBefore factor extent_pos
  have ends : offset + size - 1 - padBefore <
      (inputPosition (offset + size - 1) padBefore factor extent + 1) * (factor + 1) +
        padAfter := by
    rcases lt_or_ge (inputPosition (offset + size - 1) padBefore factor extent) (extent - 1)
      with inner | last
    · have before := lt_inputPosition_mul factor_nonneg extent_pos inner
      omega
    · have at_end : inputPosition (offset + size - 1) padBefore factor extent = extent - 1 := by
        omega
      rw [at_end]
      linarith
  unfold start inputSize
  linarith

theorem inputPosition_start {position : Int} (nonneg : 0 ≤ position) (below : position < size) :
    inputPosition (offset + position) padBefore factor extent =
      inputPosition offset padBefore factor extent +
        inputPosition (start padBefore factor extent offset + position) padBefore factor
          (inputSize padBefore factor extent offset size) := by
  have tile_pos := part.inputSize_pos
  obtain ⟨-, -, factor_nonneg, extent_pos, -, -, end_le⟩ := part
  have after_first := inputPosition_mono padBefore factor_nonneg extent_pos
    (show offset ≤ offset + position by omega)
  have before_last := inputPosition_mono padBefore factor_nonneg extent_pos
    (show offset + position ≤ offset + size - 1 by omega)
  have bounds := inputPosition_bounds offset padBefore factor extent_pos
  have last_bounds := inputPosition_bounds (offset + size - 1) padBefore factor extent_pos
  have begins : inputPosition offset padBefore factor extent * (factor + 1) ≤
      max 0 (offset - padBefore) := inputPosition_mul_le factor_nonneg extent_pos
  have step_back : start padBefore factor extent offset + position - padBefore =
      offset + position - padBefore -
        inputPosition offset padBefore factor extent * (factor + 1) := by
    unfold start
    omega
  rw [inputPosition_eq factor_nonneg tile_pos, step_back]
  have whole : inputPosition (offset + position) padBefore factor extent =
      min (extent - 1) (max 0 (offset + position - padBefore) / (factor + 1)) :=
    inputPosition_eq factor_nonneg extent_pos
  rw [whole] at after_first before_last ⊢
  have first_nonneg : 0 ≤ inputPosition offset padBefore factor extent * (factor + 1) :=
    mul_nonneg bounds.1 (by omega)
  rcases le_or_gt (inputPosition offset padBefore factor extent * (factor + 1))
    (offset + position - padBefore) with behind | before
  · have cell : (offset + position - padBefore -
        inputPosition offset padBefore factor extent * (factor + 1)) / (factor + 1) =
        (offset + position - padBefore) / (factor + 1) -
          inputPosition offset padBefore factor extent :=
      sub_mul_ediv_right _ _ (by omega)
    rw [max_eq_right (by omega)] at after_first before_last ⊢
    rw [max_eq_right (by omega), cell]
    unfold inputSize
    omega
  · -- only the padding before the first input position lies before its cell
    have at_first : inputPosition offset padBefore factor extent = 0 := by
      by_contra other
      have pos := mul_pos (lt_of_le_of_ne bounds.1 (Ne.symm other))
        (show 0 < factor + 1 by omega)
      omega
    rw [at_first] at before ⊢
    rw [max_eq_left (by omega), max_eq_left (by omega), zero_ediv]
    unfold inputSize
    rw [at_first]
    omega

end

end UpsampledPart

/-! ### All axes -/

section

variable {attr : SEUpsamplingAttr} {inputShape outputTileOffset outputTileShape : Shape}

theorem upsampledPart_height (height : 0 < inputShape .H)
    (part : IsPart (attr.inferFullOutputShape inputShape) outputTileOffset outputTileShape) :
    UpsampledPart attr.padding.top attr.padding.bottom attr.factorH (inputShape .H)
      (outputTileOffset .H) (outputTileShape .H) :=
  ⟨natCast_nonneg _, natCast_nonneg _, natCast_nonneg _, height,
    part.offset_nonneg .H, part.extents_pos .H, part.end_le .H⟩

theorem upsampledPart_width (width : 0 < inputShape .W)
    (part : IsPart (attr.inferFullOutputShape inputShape) outputTileOffset outputTileShape) :
    UpsampledPart attr.padding.left attr.padding.right attr.factorW (inputShape .W)
      (outputTileOffset .W) (outputTileShape .W) :=
  ⟨natCast_nonneg _, natCast_nonneg _, natCast_nonneg _, width,
    part.offset_nonneg .W, part.extents_pos .W, part.end_le .W⟩

/-- The padding is added again where it was taken away before. -/
theorem sub_start_add_pad (offset cells pad : Int) :
    offset - (cells + pad) + pad = offset - cells := by
  omega

theorem outputOffsets_extractTile :
    outputOffsets (attr.extractTile outputTileOffset outputTileShape inputShape).attr =
      Shape.of 0 0
        (UpsampledPart.start attr.padding.top attr.factorH (inputShape .H) (outputTileOffset .H))
        (UpsampledPart.start attr.padding.left attr.factorW (inputShape .W)
          (outputTileOffset .W)) := by
  funext dim
  cases dim with
  | N => exact sub_self _
  | C => exact sub_self _
  | H => exact sub_start_add_pad _ _ _
  | W => exact sub_start_add_pad _ _ _

theorem inputTileShape_extractTile :
    (attr.extractTile outputTileOffset outputTileShape inputShape).inputTileShape =
      Shape.of (outputTileShape .N) (outputTileShape .C)
        (UpsampledPart.inputSize attr.padding.top attr.factorH (inputShape .H)
          (outputTileOffset .H) (outputTileShape .H))
        (UpsampledPart.inputSize attr.padding.left attr.factorW (inputShape .W)
          (outputTileOffset .W) (outputTileShape .W)) := by
  funext dim
  cases dim with
  | N => exact show outputTileOffset .N + outputTileShape .N - 1 - outputTileOffset .N + 1 =
      outputTileShape .N by omega
  | C => exact show outputTileOffset .C + outputTileShape .C - 1 - outputTileOffset .C + 1 =
      outputTileShape .C by omega
  | H => rfl
  | W => rfl

section

variable (height : 0 < inputShape .H) (width : 0 < inputShape .W)
  (part : IsPart (attr.inferFullOutputShape inputShape) outputTileOffset outputTileShape)
include height width part

theorem isPart_inputTile :
    IsPart inputShape (attr.extractTile outputTileOffset outputTileShape inputShape).inputTileOffset
      (attr.extractTile outputTileOffset outputTileShape inputShape).inputTileShape := by
  rw [inputTileShape_extractTile]
  refine ⟨fun dim => ?_, fun dim => ?_, fun dim => ?_⟩
  · cases dim with
    | N => exact part.offset_nonneg .N
    | C => exact part.offset_nonneg .C
    | H => exact (inputPosition_bounds _ _ _ height).1
    | W => exact (inputPosition_bounds _ _ _ width).1
  · cases dim with
    | N => exact part.extents_pos .N
    | C => exact part.extents_pos .C
    | H => exact (upsampledPart_height height part).inputSize_pos
    | W => exact (upsampledPart_width width part).inputSize_pos
  · cases dim with
    | N => exact part.end_le .N
    | C => exact part.end_le .C
    | H => exact (upsampledPart_height height part).inputPosition_add_inputSize_le
    | W => exact (upsampledPart_width width part).inputPosition_add_inputSize_le

theorem isPart_fullOutput :
    IsPart ((attr.extractTile outputTileOffset outputTileShape inputShape).attr.inferFullOutputShape
        (attr.extractTile outputTileOffset outputTileShape inputShape).inputTileShape)
      (outputOffsets (attr.extractTile outputTileOffset outputTileShape inputShape).attr)
      outputTileShape := by
  rw [outputOffsets_extractTile, inputTileShape_extractTile]
  refine ⟨fun dim => ?_, part.extents_pos, fun dim => ?_⟩
  · cases dim with
    | N => exact le_rfl
    | C => exact le_rfl
    | H => exact (upsampledPart_height height part).start_nonneg
    | W => exact (upsampledPart_width width part).start_nonneg
  · cases dim with
    | N => exact (zero_add _).le
    | C => exact (zero_add _).le
    | H => exact (upsampledPart_height height part).start_add_size_le
    | W => exact (upsampledPart_width width part).start_add_size_le

end

/-- A tile of an upsampled table is reproduced by its input tile, and it lies inside of what its
attribute makes of the input tile. -/
theorem upsampled_tile_reproduced (offsets : attr.offsets = none) (sizes : attr.sizes = none)
    (height : 0 < inputShape .H) (width : 0 < inputShape .W)
    (part : IsPart (attr.inferOutputShape inputShape) outputTileOffset outputTileShape) :
    Reproduces attr inputShape outputTileOffset outputTileShape
        (attr.extractTile outputTileOffset outputTileShape inputShape) ∧
      IsPart
        ((attr.extractTile outputTileOffset outputTileShape inputShape).attr.inferFullOutputShape
          (attr.extractTile outputTileOffset outputTileShape inputShape).inputTileShape)
        (outputOffsets (attr.extractTile outputTileOffset outputTileShape inputShape).attr)
        outputTileShape := by
  have full : attr.inferOutputShape inputShape = attr.inferFullOutputShape inputShape :=
    if_pos ⟨offsets, sizes⟩
  rw [full] at part
  refine ⟨⟨isPart_inputTile height width part, fun coordinate within => ?_⟩,
    isPart_fullOutput height width part⟩
  refine ⟨_, rfl, congrArg Except.ok (funext fun dim => ?_)⟩
  rw [outputOffsets_extractTile, inputTileShape_extractTile]
  cases dim with
  | N => exact congrArg (outputTileOffset .N + ·) (zero_add (coordinate .N)).symm
  | C => exact congrArg (outputTileOffset .C + ·) (zero_add (coordinate .C)).symm
  | H => exact (upsampledPart_height height part).inputPosition_start (within .H).1 (within .H).2
  | W => exact (upsampledPart_width width part).inputPosition_start (within .W).1 (within .W).2

end

/-- Three rows behind two rows of padding, with two zeros between them, and the last three rows of
all: what the attribute for them makes of two input rows begins three rows before them. -/
def upsampledRows : SEUpsamplingAttr := ⟨2, 0, ⟨0, 2, 0, 0⟩, none, none⟩

theorem upsampledRows_reproduced :
    Reproduces upsampledRows (Shape.of 1 16 3 4) (Shape.of 0 0 6 0) (Shape.of 1 16 3 4)
        (upsampledRows.extractTile (Shape.of 0 0 6 0) (Shape.of 1 16 3 4) (Shape.of 1 16 3 4)) ∧
      IsPart ((upsampledRows.extractTile (Shape.of 0 0 6 0) (Shape.of 1 16 3 4)
          (Shape.of 1 16 3 4)).attr.inferFullOutputShape
        (upsampledRows.extractTile (Shape.of 0 0 6 0) (Shape.of 1 16 3 4)
          (Shape.of 1 16 3 4)).inputTileShape)
        (outputOffsets (upsampledRows.extractTile (Shape.of 0 0 6 0) (Shape.of 1 16 3 4)
          (Shape.of 1 16 3 4)).attr)
        (Shape.of 1 16 3 4) :=
  upsampled_tile_reproduced rfl rfl (by decide) (by decide) (by decide)

end SEUpsamplingAttr

/-! ### Roll -/

/-- The axes are those of the height and of the width: `verify` refuses all others. -/
structure SERollAttr where
  shiftH : Int
  shiftW : Int
  offsets : Option Shape
  sizes : Option Shape
deriving DecidableEq

namespace SERollAttr

def inferOutputShape (attr : SERollAttr) (inputShape : Shape) : Shape := attr.sizes.getD inputShape

def getInputCoord (outCoord shift dimShape : Int) : Int :=
  if shift = 0 then outCoord
  else
    let inputCoord := outCoord + shift
    if inputCoord < 0 then dimShape + inputCoord
    else if inputCoord ≥ dimShape then inputCoord.tmod dimShape
    else inputCoord

def backInferInputCoord (attr : SERollAttr) (outputCoord inputShape : Shape) : Shape :=
  let inputH := getInputCoord (outputCoord .H) (-1 * attr.shiftH) (inputShape .H)
  let inputW := getInputCoord (outputCoord .W) (-1 * attr.shiftW) (inputShape .W)
  Shape.of (outputCoord .N) (outputCoord .C) inputH inputW

def getMinPoint (shift offsetBegin offsetEnd : Int) : Int :=
  if shift = 0 then offsetBegin
  else if offsetEnd ≥ shift then if offsetBegin ≥ shift then offsetBegin else shift
  else offsetBegin

def getMaxPoint (shift offsetBegin offsetEnd : Int) : Int :=
  if shift = 0 then offsetEnd
  else if offsetEnd ≥ shift then if offsetBegin ≥ shift then offsetEnd else shift - 1
  else offsetEnd

def getNewShift (shift offset : Int) : Int := if offset ≥ shift then 0 else shift - offset

def extractTile (attr : SERollAttr) (outputTileOffset outputTileShape inputShape : Shape) :
    Except SEFault (SETile SERollAttr) :=
  let outputTileOffsetEndH := outputTileOffset .H + outputTileShape .H - 1
  let outputTileOffsetEndW := outputTileOffset .W + outputTileShape .W - 1
  let getInputCoord := fun offsetH offsetW => attr.backInferInputCoord
    (Shape.of (outputTileShape .N) (outputTileShape .C) offsetH offsetW) inputShape
  let minInputCoord := getInputCoord
    (getMinPoint attr.shiftH (outputTileOffset .H) outputTileOffsetEndH)
    (getMinPoint attr.shiftW (outputTileOffset .W) outputTileOffsetEndW)
  let maxInputCoord := getInputCoord
    (getMaxPoint attr.shiftH (outputTileOffset .H) outputTileOffsetEndH)
    (getMaxPoint attr.shiftW (outputTileOffset .W) outputTileOffsetEndW)
  if maxInputCoord .H < minInputCoord .H ∨ maxInputCoord .W < minInputCoord .W then
    .error .illegalMinMaxValues
  else
    .ok {
      inputTileOffset := Shape.of (outputTileOffset .N) (outputTileOffset .C)
        (minInputCoord .H) (minInputCoord .W)
      inputTileShape := Shape.of (outputTileShape .N) (outputTileShape .C)
        (maxInputCoord .H - minInputCoord .H + 1) (maxInputCoord .W - minInputCoord .W + 1)
      attr := {
        shiftH := getNewShift attr.shiftH (outputTileOffset .H)
        shiftW := getNewShift attr.shiftW (outputTileOffset .W)
        offsets := some 0
        sizes := some outputTileShape } }

instance : SEAttrInterface SERollAttr where
  getOffsets := offsets
  inferOutputShape := inferOutputShape
  backInferInputCoord attr outputCoord inputShape :=
    .ok (attr.backInferInputCoord outputCoord inputShape)
  extractTile := extractTile

/-! ### One axis -/

theorem getInputCoord_before {outCoord shift : Int} (dimShape : Int) (before : outCoord < shift)
    (pos : 0 < shift) :
    getInputCoord outCoord (-1 * shift) dimShape = dimShape + (outCoord - shift) := by
  unfold getInputCoord
  rw [if_neg (by omega), if_pos (by omega)]
  omega

theorem getInputCoord_after {outCoord shift dimShape : Int} (after : shift ≤ outCoord)
    (below : outCoord - shift < dimShape) :
    getInputCoord outCoord (-1 * shift) dimShape = outCoord - shift := by
  unfold getInputCoord
  by_cases zero : -1 * shift = 0
  · rw [if_pos zero]
    omega
  · rw [if_neg zero, if_neg (by omega), if_neg (by omega)]
    omega

/-- The first input coordinate of the input tile of one axis. -/
def minInputCoord (shift offset size extent : Int) : Int :=
  getInputCoord (getMinPoint shift offset (offset + size - 1)) (-1 * shift) extent

/-- The last one. -/
def maxInputCoord (shift offset size extent : Int) : Int :=
  getInputCoord (getMaxPoint shift offset (offset + size - 1)) (-1 * shift) extent

/-- An axis that is rolled, and a part of it. -/
structure RolledPart (shift offset size extent : Int) : Prop where
  shift_nonneg : 0 ≤ shift
  shift_lt : shift < extent
  offset_nonneg : 0 ≤ offset
  size_pos : 0 < size
  end_le : offset + size ≤ extent

namespace RolledPart

variable {shift offset size extent : Int}

theorem points_of_side (side : shift ≤ offset ∨ offset + size ≤ shift) (pos : 0 < size) :
    getMinPoint shift offset (offset + size - 1) = offset ∧
      getMaxPoint shift offset (offset + size - 1) = offset + size - 1 := by
  unfold getMinPoint getMaxPoint
  constructor <;> split_ifs <;> omega

section

variable (part : RolledPart shift offset size extent)
include part

theorem bounds_after (after : shift ≤ offset) :
    minInputCoord shift offset size extent = offset - shift ∧
      maxInputCoord shift offset size extent = offset + size - 1 - shift := by
  obtain ⟨shift_nonneg, -, -, size_pos, end_le⟩ := part
  obtain ⟨min_point, max_point⟩ := points_of_side (.inl after) size_pos
  unfold minInputCoord maxInputCoord
  rw [min_point, max_point]
  exact ⟨getInputCoord_after after (by omega), getInputCoord_after (by omega) (by omega)⟩

/-- A part with the wrap point inside needs all of the input. -/
theorem bounds_across (begins : offset < shift) (ends : shift < offset + size) :
    minInputCoord shift offset size extent = 0 ∧
      maxInputCoord shift offset size extent = extent - 1 := by
  obtain ⟨shift_nonneg, -, offset_nonneg, size_pos, end_le⟩ := part
  have min_point : getMinPoint shift offset (offset + size - 1) = shift := by
    unfold getMinPoint
    split_ifs <;> omega
  have max_point : getMaxPoint shift offset (offset + size - 1) = shift - 1 := by
    unfold getMaxPoint
    split_ifs <;> omega
  unfold minInputCoord maxInputCoord
  rw [min_point, max_point, getInputCoord_after le_rfl (by omega),
    getInputCoord_before extent (by omega) (by omega)]
  exact ⟨by omega, by omega⟩

theorem bounds_before (before : offset + size ≤ shift) :
    minInputCoord shift offset size extent = extent + (offset - shift) ∧
      maxInputCoord shift offset size extent = extent + (offset + size - 1 - shift) := by
  obtain ⟨shift_nonneg, -, offset_nonneg, size_pos, -⟩ := part
  obtain ⟨min_point, max_point⟩ := points_of_side (.inr before) size_pos
  unfold minInputCoord maxInputCoord
  rw [min_point, max_point, getInputCoord_before extent (by omega) (by omega),
    getInputCoord_before extent (by omega) (by omega)]
  exact ⟨rfl, rfl⟩

theorem bounds :
    0 ≤ minInputCoord shift offset size extent ∧
      minInputCoord shift offset size extent ≤ maxInputCoord shift offset size extent ∧
      maxInputCoord shift offset size extent < extent := by
  have ⟨shift_nonneg, shift_lt, offset_nonneg, size_pos, end_le⟩ := part
  rcases le_or_gt shift offset with after | begins
  · obtain ⟨min_eq, max_eq⟩ := part.bounds_after after
    rw [min_eq, max_eq]
    omega
  · rcases le_or_gt (offset + size) shift with before | ends
    · obtain ⟨min_eq, max_eq⟩ := part.bounds_before before
      rw [min_eq, max_eq]
      omega
    · obtain ⟨min_eq, max_eq⟩ := part.bounds_across begins ends
      rw [min_eq, max_eq]
      omega

end

/-- What the new shift makes of a position of the part, in the input tile. -/
def read (shift offset size extent position : Int) : Int :=
  getInputCoord position (-1 * getNewShift shift offset)
    (maxInputCoord shift offset size extent - minInputCoord shift offset size extent + 1)

/-- A part that reaches the wrap point is read as it is read in the whole. -/
theorem read_of_reaches (part : RolledPart shift offset size extent)
    (reaches : shift ≤ offset + size) {position : Int} (nonneg : 0 ≤ position)
    (below : position < size) :
    (0 ≤ read shift offset size extent position ∧ read shift offset size extent position <
          maxInputCoord shift offset size extent - minInputCoord shift offset size extent + 1) ∧
      getInputCoord (offset + position) (-1 * shift) extent =
        minInputCoord shift offset size extent + read shift offset size extent position := by
  have ⟨shift_nonneg, shift_lt, offset_nonneg, size_pos, end_le⟩ := part
  unfold read getNewShift
  rcases le_or_gt shift offset with after | begins
  · obtain ⟨min_eq, max_eq⟩ := part.bounds_after after
    rw [min_eq, max_eq, if_pos after, getInputCoord_after nonneg (by omega),
      getInputCoord_after (by omega) (by omega)]
    omega
  · rw [if_neg (by omega)]
    have whole : minInputCoord shift offset size extent = extent + (offset - shift) ∧
        maxInputCoord shift offset size extent = extent - 1 ∧ offset + size = shift ∨
        minInputCoord shift offset size extent = 0 ∧
        maxInputCoord shift offset size extent = extent - 1 := by
      rcases le_or_gt (offset + size) shift with before | ends
      · obtain ⟨min_eq, max_eq⟩ := part.bounds_before before
        exact Or.inl ⟨min_eq, by omega, by omega⟩
      · exact Or.inr (part.bounds_across begins ends)
    rcases whole with ⟨min_eq, max_eq, last⟩ | ⟨min_eq, max_eq⟩
    · rw [min_eq, max_eq, getInputCoord_before _ (by omega) (by omega),
        getInputCoord_before _ (by omega) (by omega)]
      omega
    · rw [min_eq, max_eq]
      rcases le_or_gt (shift - offset) position with second | first
      · rw [getInputCoord_after second (by omega), getInputCoord_after (by omega) (by omega)]
        omega
      · rw [getInputCoord_before _ first (by omega),
          getInputCoord_before _ (by omega) (by omega)]
        omega

theorem read_of_not_reaches (part : RolledPart shift offset size extent)
    (before : offset + size < shift) :
    getInputCoord (offset + 0) (-1 * shift) extent ≠
      minInputCoord shift offset size extent + read shift offset size extent 0 := by
  have ⟨shift_nonneg, shift_lt, offset_nonneg, size_pos, end_le⟩ := part
  obtain ⟨min_eq, max_eq⟩ := part.bounds_before (by omega)
  unfold read getNewShift
  rw [min_eq, max_eq, if_neg (by omega), getInputCoord_before _ (by omega) (by omega),
    getInputCoord_before _ (by omega) (by omega)]
  omega

end RolledPart

/-! ### All axes -/

def shiftAt (attr : SERollAttr) : Dim → Int
  | .H => attr.shiftH
  | .W => attr.shiftW
  | _ => 0

theorem backInferInputCoord_eq (attr : SERollAttr) (outputCoord inputShape : Shape) :
    attr.backInferInputCoord outputCoord inputShape = fun dim =>
      getInputCoord (outputCoord dim) (-1 * attr.shiftAt dim) (inputShape dim) := by
  funext dim
  cases dim <;> rfl

/-- The attribute for a tile. -/
def tileAttr (attr : SERollAttr) (outputTileOffset outputTileShape : Shape) : SERollAttr where
  shiftH := getNewShift attr.shiftH (outputTileOffset .H)
  shiftW := getNewShift attr.shiftW (outputTileOffset .W)
  offsets := some 0
  sizes := some outputTileShape

theorem shiftAt_tileAttr (attr : SERollAttr) {outputTileOffset : Shape} (outputTileShape : Shape)
    (offset_nonneg : ∀ dim, 0 ≤ outputTileOffset dim) (dim : Dim) :
    (attr.tileAttr outputTileOffset outputTileShape).shiftAt dim =
      getNewShift (attr.shiftAt dim) (outputTileOffset dim) := by
  cases dim with
  | N => exact (if_pos (offset_nonneg .N)).symm
  | C => exact (if_pos (offset_nonneg .C)).symm
  | H => rfl
  | W => rfl

/-- No axis is shifted by more than its extent. -/
def ShiftsInside (attr : SERollAttr) (inputShape : Shape) : Prop :=
  (0 ≤ attr.shiftH ∧ attr.shiftH < inputShape .H) ∧ 0 ≤ attr.shiftW ∧ attr.shiftW < inputShape .W

section

variable {attr : SERollAttr} {inputShape outputTileOffset outputTileShape : Shape}

theorem ShiftsInside.rolledPart (inside : attr.ShiftsInside inputShape)
    (part : IsPart inputShape outputTileOffset outputTileShape) (dim : Dim) :
    RolledPart (attr.shiftAt dim) (outputTileOffset dim) (outputTileShape dim)
      (inputShape dim) := by
  have offset_nonneg := part.offset_nonneg dim
  have size_pos := part.extents_pos dim
  have end_le := part.end_le dim
  refine ⟨?_, ?_, offset_nonneg, size_pos, end_le⟩
  · cases dim with
    | N => exact le_rfl
    | C => exact le_rfl
    | H => exact inside.1.1
    | W => exact inside.2.1
  · cases dim with
    | N => exact show (0 : Int) < inputShape .N by omega
    | C => exact show (0 : Int) < inputShape .C by omega
    | H => exact inside.1.2
    | W => exact inside.2.2

section

variable
  (rolled : ∀ dim, RolledPart (attr.shiftAt dim) (outputTileOffset dim) (outputTileShape dim)
    (inputShape dim))
include rolled

theorem extractTile_eq :
    attr.extractTile outputTileOffset outputTileShape inputShape = .ok {
      inputTileOffset := fun dim => minInputCoord (attr.shiftAt dim) (outputTileOffset dim)
        (outputTileShape dim) (inputShape dim)
      inputTileShape := fun dim =>
        maxInputCoord (attr.shiftAt dim) (outputTileOffset dim) (outputTileShape dim)
            (inputShape dim) -
          minInputCoord (attr.shiftAt dim) (outputTileOffset dim) (outputTileShape dim)
            (inputShape dim) + 1
      attr := attr.tileAttr outputTileOffset outputTileShape } := by
  have height := (rolled .H).bounds.2.1
  have width := (rolled .W).bounds.2.1
  refine (if_neg (not_or.mpr ⟨height.not_gt, width.not_gt⟩)).trans ?_
  have offsets : Shape.of (outputTileOffset .N) (outputTileOffset .C)
      (minInputCoord attr.shiftH (outputTileOffset .H) (outputTileShape .H) (inputShape .H))
      (minInputCoord attr.shiftW (outputTileOffset .W) (outputTileShape .W) (inputShape .W)) =
      fun dim => minInputCoord (attr.shiftAt dim) (outputTileOffset dim)
        (outputTileShape dim) (inputShape dim) := by
    funext dim
    cases dim <;> rfl
  refine congrArg ok (congrArg₂ (fun offset shape => SETile.mk offset shape _) offsets ?_)
  funext dim
  cases dim with
  | N => exact show outputTileShape .N =
      outputTileOffset .N + outputTileShape .N - 1 - outputTileOffset .N + 1 by omega
  | C => exact show outputTileShape .C =
      outputTileOffset .C + outputTileShape .C - 1 - outputTileOffset .C + 1 by omega
  | H => rfl
  | W => rfl

/-- What the attributes of the whole and of the tile read on one axis. -/
theorem reads_iff :
    (∀ dim position, 0 ≤ position → position < outputTileShape dim →
      getInputCoord (outputTileOffset dim + position) (-1 * attr.shiftAt dim) (inputShape dim) =
        minInputCoord (attr.shiftAt dim) (outputTileOffset dim) (outputTileShape dim)
            (inputShape dim) +
          RolledPart.read (attr.shiftAt dim) (outputTileOffset dim) (outputTileShape dim)
            (inputShape dim) position) ↔
      ∀ dim, attr.shiftAt dim ≤ outputTileOffset dim + outputTileShape dim := by
  constructor
  · intro same dim
    by_contra before
    exact (rolled dim).read_of_not_reaches (not_le.mp before)
      (same dim 0 le_rfl (rolled dim).size_pos)
  · intro reaches dim position nonneg below
    exact ((rolled dim).read_of_reaches (reaches dim) nonneg below).2

end

theorem forall_shiftAt_le_iff (part : IsPart inputShape outputTileOffset outputTileShape) :
    (∀ dim, attr.shiftAt dim ≤ outputTileOffset dim + outputTileShape dim) ↔
      attr.shiftH ≤ outputTileOffset .H + outputTileShape .H ∧
        attr.shiftW ≤ outputTileOffset .W + outputTileShape .W := by
  constructor
  · intro reaches
    exact ⟨reaches .H, reaches .W⟩
  · intro reaches dim
    have offset_nonneg := part.offset_nonneg dim
    have size_pos := part.extents_pos dim
    cases dim with
    | N => exact show (0 : Int) ≤ _ by omega
    | C => exact show (0 : Int) ≤ _ by omega
    | H => exact reaches.1
    | W => exact reaches.2

/-- A tile of a rolled table is reproduced by its input tile exactly when, on both axes, it does not
end before the wrap point. -/
theorem rolled_tile_reproduced_iff (sizes : attr.sizes = none)
    (inside : attr.ShiftsInside inputShape)
    (part : IsPart (attr.inferOutputShape inputShape) outputTileOffset outputTileShape) :
    (∃ tile, attr.extractTile outputTileOffset outputTileShape inputShape = .ok tile ∧
        Reproduces attr inputShape outputTileOffset outputTileShape tile ∧
        ReadsInside outputTileShape tile) ↔
      attr.shiftH ≤ outputTileOffset .H + outputTileShape .H ∧
        attr.shiftW ≤ outputTileOffset .W + outputTileShape .W := by
  unfold inferOutputShape at part
  rw [sizes, Option.getD_none] at part
  have rolled := inside.rolledPart part
  rw [← forall_shiftAt_le_iff part, ← reads_iff rolled, extractTile_eq rolled]
  have read_eq : ∀ coordinate : Shape,
      (attr.tileAttr outputTileOffset outputTileShape).backInferInputCoord (0 + coordinate)
          (fun dim =>
            maxInputCoord (attr.shiftAt dim) (outputTileOffset dim) (outputTileShape dim)
                (inputShape dim) -
              minInputCoord (attr.shiftAt dim) (outputTileOffset dim) (outputTileShape dim)
                (inputShape dim) + 1) =
        fun dim => RolledPart.read (attr.shiftAt dim) (outputTileOffset dim)
          (outputTileShape dim) (inputShape dim) (coordinate dim) := by
    intro coordinate
    rw [backInferInputCoord_eq, zero_add]
    funext dim
    rw [shiftAt_tileAttr attr outputTileShape part.offset_nonneg]
    rfl
  constructor
  · rintro ⟨tile, extracted, reproduces, -⟩
    cases extracted
    refine (forall_inside_iff part.extents_pos).mp fun coordinate within dim => ?_
    obtain ⟨read, of_tile, of_whole⟩ := reproduces.reads coordinate within
    have read_is := (read_eq coordinate).symm.trans (ok.inj of_tile)
    have whole_is := (backInferInputCoord_eq attr _ inputShape).symm.trans (ok.inj of_whole)
    rw [← read_is] at whole_is
    exact congrFun whole_is dim
  · intro same
    have reaches := (reads_iff rolled).mp same
    refine ⟨_, rfl, ⟨⟨fun dim => (rolled dim).bounds.1, fun dim => ?_, fun dim => ?_⟩, ?_⟩, ?_⟩
    · have bounds := (rolled dim).bounds
      dsimp only
      omega
    · have bounds := (rolled dim).bounds
      dsimp only
      omega
    · intro coordinate within
      refine ⟨_, congrArg ok (read_eq coordinate), congrArg ok ?_⟩
      rw [backInferInputCoord_eq]
      funext dim
      exact same dim (coordinate dim) (within dim).1 (within dim).2
    · intro coordinate within
      refine ⟨_, congrArg ok (read_eq coordinate), fun dim => ?_⟩
      exact ((rolled dim).read_of_reaches (reaches dim) (within dim).1 (within dim).2).1

end

/-- A shift of 3 of an axis of 9 positions, and the tile of the positions 2, 3 and 4. -/
def rolledRows : SERollAttr := ⟨3, 0, none, none⟩

theorem rolledRows_reproduces :
    ∃ tile, rolledRows.extractTile (Shape.of 0 0 2 0) (Shape.of 1 16 3 4) (Shape.of 1 16 9 4) =
        .ok tile ∧
      Reproduces rolledRows (Shape.of 1 16 9 4) (Shape.of 0 0 2 0) (Shape.of 1 16 3 4) tile ∧
      ReadsInside (Shape.of 1 16 3 4) tile :=
  (rolled_tile_reproduced_iff rfl ⟨by decide, by decide⟩ (by decide)).mpr (by decide)

/-- The first two of the positions that wrap: the input tile has two rows and the new shift is 5. -/
theorem tile_before_wrap_point_not_reproduced :
    (⟨5, 0, none, none⟩ : SERollAttr).ShiftsInside (Shape.of 1 16 9 4) ∧
      IsPart ((⟨5, 0, none, none⟩ : SERollAttr).inferOutputShape (Shape.of 1 16 9 4))
        (Shape.of 0 0 0 0) (Shape.of 1 16 2 4) ∧
      ∃ tile, (⟨5, 0, none, none⟩ : SERollAttr).extractTile (Shape.of 0 0 0 0)
          (Shape.of 1 16 2 4) (Shape.of 1 16 9 4) = .ok tile ∧
        tile.inputTileShape = Shape.of 1 16 2 4 ∧
        tile.attr.backInferInputCoord (Shape.of 0 0 0 0) tile.inputTileShape =
          Shape.of 0 0 (-3) 0 ∧
        ¬ Reproduces (⟨5, 0, none, none⟩ : SERollAttr) (Shape.of 1 16 9 4) (Shape.of 0 0 0 0)
          (Shape.of 1 16 2 4) tile := by
  refine ⟨⟨by decide, by decide⟩, by decide, _, rfl, by decide, by decide, fun reproduces => ?_⟩
  obtain ⟨read, of_tile, of_whole⟩ := reproduces.reads (Shape.of 0 0 0 0) (by decide)
  cases of_tile
  exact absurd (congrFun (ok.inj of_whole) .H) (by decide)

end SERollAttr

end NpuPlugin.SEAttributes
