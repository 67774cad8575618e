/-
This file models the division of a tensor into tiles, and which part of an input a tile of the
output of a convolution or a pooling needs, with its padding. The dimensions of activations are N,
C, H and W, those of filters are OC, IC, KY and KX.
-/

import Mathlib.Tactic.Ring
import NpuPlugin.Library.Loop
import NpuPlugin.Library.Spans
import NpuPlugin.Utils.Numeric

namespace NpuPlugin.Tiling

open Int List Run Spans

structure TileInfo where
  shape : List Int
  offsets : List Int
  axis : List Int
  isCompletedTile : Bool
deriving DecidableEq, Repr

abbrev OutputTiling := List TileInfo

/-- `failure` is the result of a request that cannot be met. `noDimAtPos` is thrown, and
`undefined` stands for an index outside of a container. -/
inductive TilingFailure
  | failure
  | noDimAtPos (pos : Nat)
  | undefined
deriving DecidableEq, Repr

/-- `TileInfo(rank)` -/
def TileInfo.ofRank (rank : Nat) : TileInfo :=
  ⟨List.replicate rank 0, List.replicate rank 0, List.replicate rank 0, false⟩

def valueAt (values : List Int) (dim : Nat) : Except TilingFailure Int :=
  match values[dim]? with
  | some value => .ok value
  | none => .error .undefined

/-- `DimsOrder::NHWC.dimAt` -/
def dimAtNHWC : Nat → Except TilingFailure Nat
  | 0 => .ok 0
  | 1 => .ok 2
  | 2 => .ok 3
  | 3 => .ok 1
  | pos => .error (.noDimAtPos pos)

/-- The order is NHWC when the spatial dimensions are unrolled first, otherwise that of the shape.
-/
def dimensionAt (unrollSpatialFirst : Bool) (dimensionIndex : Nat) : Except TilingFailure Nat :=
  if unrollSpatialFirst then dimAtNHWC dimensionIndex else .ok dimensionIndex

/-- The size of the first tiles, that of the others, and the number of the first ones. -/
def divideTileSizeAndInterval (dim : Nat) (divisors shape alignment : List Int) :
    Except TilingFailure (Int × Int × Nat) := do
  let shapeVal ← valueAt shape dim
  let divisorVal ← valueAt divisors dim
  let alignmentVal ← valueAt alignment dim
  if shapeVal < divisorVal then .error .failure
  else if 1 < alignmentVal then
    let tileSize := Signed.alignValUp (divUp shapeVal divisorVal) alignmentVal
    let remainderTileSize := shapeVal - tileSize * (divisorVal - 1)
    if remainderTileSize ≤ 0 then .error .failure
    else .ok (tileSize, remainderTileSize, (divisorVal - 1).toNat)
  else
    let tileSize := shapeVal.tdiv divisorVal
    let remainderTileSize := shapeVal.tmod divisorVal
    if remainderTileSize ≠ 0 then .ok (tileSize + 1, tileSize, remainderTileSize.toNat)
    else .ok (tileSize, remainderTileSize, divisorVal.toNat)

/-- The tiles found so far, the tile that is being changed, and where the next tile begins. -/
structure Division where
  dividedTiles : OutputTiling
  ongoingTile : TileInfo
  tileOffset : Int

def TileInfo.assign (tile : TileInfo) (dim : Nat) (tileShape tileOffset totalTileSize : Int) :
    TileInfo :=
  { tile with
    shape := tile.shape.set dim tileShape
    offsets := tile.offsets.set dim tileOffset
    axis := tile.axis.set dim totalTileSize }

/-- One dimension; `next` goes on with a tile that has its size in this dimension. -/
def divideDimension (divisors shape alignment : List Int) (unrollSpatialFirst : Bool)
    (dimensionIndex : Nat)
    (next : OutputTiling → TileInfo → Except TilingFailure (OutputTiling × TileInfo))
    (dividedTiles : OutputTiling) (ongoingTile : TileInfo) :
    Except TilingFailure (OutputTiling × TileInfo) := do
  let dim ← dimensionAt unrollSpatialFirst dimensionIndex
  let (tileSize, remainderTileSize, tileSizeInterval) ←
    divideTileSizeAndInterval dim divisors shape alignment
  let totalTileSize ← valueAt divisors dim
  let division ← (List.range totalTileSize.toNat).foldlM (fun division tileIndex => do
    let tileShape := if tileIndex < tileSizeInterval then tileSize else remainderTileSize
    let ongoingTile := division.ongoingTile.assign dim tileShape division.tileOffset totalTileSize
    let (dividedTiles, ongoingTile) ← next division.dividedTiles ongoingTile
    return ⟨dividedTiles, ongoingTile, division.tileOffset + tileShape⟩)
    (⟨dividedTiles, ongoingTile, 0⟩ : Division)
  return (division.dividedTiles, division.ongoingTile)

/-- The dimensions from an index on; `0` is left for the last one. -/
def divideTiles (divisors shape alignment : List Int) (unrollSpatialFirst : Bool) :
    Nat → Nat → OutputTiling → TileInfo → Except TilingFailure (OutputTiling × TileInfo)
  | 0, dimensionIndex, dividedTiles, ongoingTile =>
    divideDimension divisors shape alignment unrollSpatialFirst dimensionIndex
      (fun dividedTiles ongoingTile => .ok (dividedTiles ++ [ongoingTile], ongoingTile))
      dividedTiles ongoingTile
  | left + 1, dimensionIndex, dividedTiles, ongoingTile =>
    divideDimension divisors shape alignment unrollSpatialFirst dimensionIndex
      (fun dividedTiles ongoingTile => divideTiles divisors shape alignment unrollSpatialFirst left
        (dimensionIndex + 1) dividedTiles ongoingTile)
      dividedTiles ongoingTile

def fillDividedTiles (divisors shape : List Int) (alignment : Option (List Int))
    (unrollSpatialFirst : Bool) : Except TilingFailure OutputTiling := do
  let ongoingTile := { TileInfo.ofRank divisors.length with isCompletedTile := true }
  let alignmentShape := alignment.getD (List.replicate shape.length 1)
  let (dividedTiles, _) ← divideTiles divisors shape alignmentShape unrollSpatialFirst
    (divisors.length - 1) 0 [] ongoingTile
  return dividedTiles

/-! ### Inference of the input -/

structure DimRange where
  begin : Int
  stop : Int
deriving DecidableEq, Repr

def DimRange.length (range : DimRange) : Int := range.stop - range.begin

structure PadInfo where
  left : Int
  right : Int
  top : Int
  bottom : Int
deriving DecidableEq, Repr

inductive BackInferFailure
  | wrongDimRange (range : DimRange)
  | kernelSize (size : Nat)
  | stridesSize (size : Nat)
  | invalidPads (pads : PadInfo)
  | wrongOutputTile (output : DimRange)
  | wrongInitialInput (initialInputRange : DimRange)
  | wrongKernel (kernel : Int)
  | wrongStride (stride : Int)
  | wrongPadBefore (padBefore : Int)
  | wrongPadAfter (padAfter : Int)
  | padBeforeMismatch (input : DimRange) (padBefore : Int) (initialInputRange : DimRange)
  | padAfterMismatch (input : DimRange) (padAfter : Int) (initialInputRange : DimRange)
  | rangeMismatch (input initialInputRange : DimRange)
  | invalidPlanarDim (planarDim : Nat)
  | invalidSize (size : Int) (planarDim : Nat)
deriving DecidableEq, Repr

/-- The constructor of `DimRange`. -/
def dimRange (begin stop : Int) : Except BackInferFailure DimRange :=
  if begin ≤ stop then .ok ⟨begin, stop⟩ else .error (.wrongDimRange ⟨begin, stop⟩)

def outputExtent (input kernel stride padBefore padAfter : Int) : Int :=
  (input - kernel + padBefore + padAfter).tdiv stride + 1

/-- Infer output window size OH X OW from input window size IH X IW -/
def spatialOutputForInputWindowSize (inputHW : Int × Int) (kernel strides : List Int)
    (pads : PadInfo) : Except BackInferFailure (Option (Int × Int)) :=
  match kernel, strides with
  | [KY, KX], [SY, SX] =>
    if pads.top < 0 ∨ pads.bottom < 0 ∨ pads.left < 0 ∨ pads.right < 0 then
      .error (.invalidPads pads)
    else
      let outputHeight := outputExtent inputHW.1 KY SY pads.top pads.bottom
      let outputWidth := outputExtent inputHW.2 KX SX pads.left pads.right
      if outputHeight ≤ 0 ∨ outputWidth ≤ 0 then .ok none
      else .ok (some (outputHeight, outputWidth))
  | [_, _], _ => .error (.stridesSize strides.length)
  | _, _ => .error (.kernelSize kernel.length)

/-- `VPUX_THROW_UNLESS` -/
def throwUnless (condition : Bool) (failure : BackInferFailure) : Except BackInferFailure Unit :=
  if condition then .ok () else .error failure

/-- The input of a range of outputs, and how much padding it keeps at either end. -/
def inputForOutputDim (output : DimRange) (kernel stride : Int) (initialInputRange : DimRange)
    (padBefore padAfter : Int) : Except BackInferFailure (DimRange × Int × Int) := do
  throwUnless (0 < output.length) (.wrongOutputTile output)
  throwUnless (0 < initialInputRange.length) (.wrongInitialInput initialInputRange)
  throwUnless (0 < kernel) (.wrongKernel kernel)
  throwUnless (0 < stride) (.wrongStride stride)
  throwUnless (0 ≤ padBefore) (.wrongPadBefore padBefore)
  throwUnless (0 ≤ padAfter) (.wrongPadAfter padAfter)
  let inputBegin := output.begin * stride - padBefore
  throwUnless (initialInputRange.begin ≤ inputBegin ||
      initialInputRange.begin - inputBegin ≤ padBefore)
    (.padBeforeMismatch ⟨inputBegin, 0⟩ padBefore initialInputRange)
  let before := if inputBegin < initialInputRange.begin then
    min (initialInputRange.begin - inputBegin) padBefore else 0
  let inputBegin := max inputBegin initialInputRange.begin
  throwUnless (inputBegin < initialInputRange.stop)
    (.rangeMismatch ⟨inputBegin, 0⟩ initialInputRange)
  let inputEnd := (output.stop - 1) * stride + kernel - padBefore
  throwUnless (inputEnd ≤ initialInputRange.stop || inputEnd - initialInputRange.stop ≤ padAfter)
    (.padAfterMismatch ⟨inputBegin, inputEnd⟩ padAfter initialInputRange)
  let after := if initialInputRange.stop < inputEnd then
    min (inputEnd - initialInputRange.stop) padAfter else 0
  let inputEnd := min inputEnd initialInputRange.stop
  let input : DimRange := ⟨inputBegin, inputEnd⟩
  throwUnless (initialInputRange.begin < inputEnd) (.rangeMismatch input initialInputRange)
  throwUnless (0 < input.length) (.rangeMismatch input initialInputRange)
  return (input, before, after)

structure PlaneTile where
  width : DimRange
  height : DimRange
deriving DecidableEq, Repr

/-- `solutionForOutputTile` does nothing but call this function. -/
def inputForOutputTile (output : PlaneTile) (kernelX kernelY strideX strideY : Int)
    (initialInputDims : List Int) (initialPad : PadInfo) :
    Except BackInferFailure (PlaneTile × PadInfo) := do
  let initialHeight ← dimRange 0 (initialInputDims.getD 2 0)
  let (height, top, bottom) ← inputForOutputDim output.height kernelY strideY initialHeight
    initialPad.top initialPad.bottom
  let initialWidth ← dimRange 0 (initialInputDims.getD 3 0)
  let (width, left, right) ← inputForOutputDim output.width kernelX strideX initialWidth
    initialPad.left initialPad.right
  return (⟨width, height⟩, ⟨left, right, top, bottom⟩)

/-- The planar size of the input is kept when there is no tiling over its axis. -/
def restorePlanarShapeForInputTile (inputTile : TileInfo) (origInputShape : List Int)
    (planarDim : Nat) : Except BackInferFailure TileInfo :=
  if planarDim ≠ 2 ∧ planarDim ≠ 3 then .error (.invalidPlanarDim planarDim)
  else if origInputShape.getD planarDim 0 < inputTile.shape.getD planarDim 0 then
    .error (.invalidSize (inputTile.shape.getD planarDim 0) planarDim)
  else
    .ok { inputTile with
      shape := inputTile.shape.set planarDim (origInputShape.getD planarDim 0) }

variable (outputTile : TileInfo)

def restoreUntiledAxis (origInputShape : List Int) (planarDim : Nat)
    (inputTile : TileInfo) : Except BackInferFailure TileInfo :=
  if outputTile.isCompletedTile && outputTile.axis.getD planarDim 0 == 1 then
    restorePlanarShapeForInputTile inputTile origInputShape planarDim
  else .ok inputTile

/-- `TileInfo(shape)` -/
def TileInfo.ofShape (shape : List Int) : TileInfo :=
  ⟨shape, List.replicate shape.length 0, List.replicate shape.length 1, false⟩

def TileInfo.setRange (tile : TileInfo) (dim : Nat) (offset shape : Int) : TileInfo :=
  { tile with
    shape := tile.shape.set dim shape, offsets := tile.offsets.set dim offset }

/-- The input of a tile along both planar dimensions, as convolution and pooling compute it. -/
def planarInput (origInputShape : List Int)
    (kernelX kernelY strideX strideY : Int) (origPadding : PadInfo) (inputTile : TileInfo) :
    Except BackInferFailure (TileInfo × PadInfo) := do
  let output : PlaneTile :=
    ⟨⟨outputTile.offsets.getD 3 0, outputTile.offsets.getD 3 0 + outputTile.shape.getD 3 0⟩,
      ⟨outputTile.offsets.getD 2 0, outputTile.offsets.getD 2 0 + outputTile.shape.getD 2 0⟩⟩
  let (solution, inputPad) ← inputForOutputTile output kernelX kernelY strideX strideY
    origInputShape origPadding
  let inputTile := inputTile.setRange 2 solution.height.begin solution.height.length
  let inputTile := inputTile.setRange 3 solution.width.begin solution.width.length
  let inputTile ← restoreUntiledAxis outputTile origInputShape 2 inputTile
  let inputTile ← restoreUntiledAxis outputTile origInputShape 3 inputTile
  return (inputTile, inputPad)

structure TilingInfo where
  tiles : List TileInfo
  pads : Option PadInfo
deriving DecidableEq, Repr

/-- The range of a dimension of another tile. -/
def TileInfo.copyRange (tile source : TileInfo) (dim sourceDimension : Nat) : TileInfo :=
  tile.setRange dim (source.offsets.getD sourceDimension 0)
    (source.shape.getD sourceDimension 0)

def backInferConvTile (origInputShape origFilterShape origBiasShape : List Int)
    (strides : List Int) (origPadding : PadInfo) : Except BackInferFailure TilingInfo := do
  let strideY := strides.getD 0 0
  let strideX := strides.getD 1 0
  let inputTile := (TileInfo.ofShape origInputShape).copyRange outputTile 0 0
  let inputTile := { inputTile with axis := outputTile.axis }
  let (inputTile, inputPad) ← planarInput outputTile origInputShape (origFilterShape.getD 3 0)
    (origFilterShape.getD 2 0) strideX strideY origPadding inputTile
  let filterTile := (TileInfo.ofShape origFilterShape).copyRange outputTile 0 1
  if origBiasShape.isEmpty then return ⟨[inputTile, filterTile], some inputPad⟩
  else
    let biasTile := (TileInfo.ofShape origBiasShape).copyRange outputTile 1 1
    return ⟨[inputTile, filterTile, biasTile], some inputPad⟩

def backInferPoolTile (origInputShape kernelSize strides : List Int)
    (origPadding : PadInfo) : Except BackInferFailure TilingInfo := do
  let inputTile := (TileInfo.ofShape origInputShape).copyRange outputTile 0 0
  let inputTile := inputTile.copyRange outputTile 1 1
  let (inputTile, inputPad) ← planarInput outputTile origInputShape (kernelSize.getD 1 0)
    (kernelSize.getD 0 0) (strides.getD 1 0) (strides.getD 0 0) origPadding inputTile
  return ⟨[inputTile], some inputPad⟩

/-! ### The extents of one dimension -/

/-- The tiles of a dimension: a number of first ones, and the others. -/
def extentsOf (tileSize remainderTileSize : Int) (tileSizeInterval total : Nat) : List Int :=
  (List.range total).map fun tileIndex =>
    if tileIndex < tileSizeInterval then tileSize else remainderTileSize

theorem extentsOf_eq (tileSize remainderTileSize : Int) {tileSizeInterval total : Nat}
    (le : tileSizeInterval ≤ total) :
    extentsOf tileSize remainderTileSize tileSizeInterval total =
      List.replicate tileSizeInterval tileSize ++
        List.replicate (total - tileSizeInterval) remainderTileSize := by
  unfold extentsOf
  refine ext_getElem (by simp; omega) fun idx small _ => ?_
  rw [getElem_map, getElem_range, getElem_append]
  split
  · next first => rw [dif_pos (by rw [length_replicate]; exact first), getElem_replicate]
  · next later => rw [dif_neg (by rw [length_replicate]; exact later), getElem_replicate]

/-- What the extents of the tiles of a dimension are. -/
structure Extents (shapeVal divisorVal alignmentVal : Int) (extents : List Int) : Prop where
  length : (extents.length : Int) = divisorVal
  positive : ∀ extent ∈ extents, 0 < extent
  sum : extents.sum = shapeVal
  aligned : 1 < alignmentVal → ∀ extent ∈ extents.dropLast, alignmentVal ∣ extent

/-- The division cannot be done: there are more tiles than elements, or the aligned tiles leave
nothing for the last one. -/
def Indivisible (shapeVal divisorVal alignmentVal : Int) : Prop :=
  shapeVal < divisorVal ∨ 1 < alignmentVal ∧
    shapeVal ≤ Signed.alignValUp (divUp shapeVal divisorVal) alignmentVal * (divisorVal - 1)

instance (shapeVal divisorVal alignmentVal : Int) :
    Decidable (Indivisible shapeVal divisorVal alignmentVal) :=
  inferInstanceAs (Decidable (_ ∨ _))

section Dimension

variable {divisors shape alignment : List Int} {dim : Nat}
  {shapeVal divisorVal alignmentVal : Int}

theorem valueAt_eq {values : List Int} {value : Int} (found : values[dim]? = some value) :
    valueAt values dim = .ok value := by
  unfold valueAt
  rw [found]

theorem extents_aligned (divisorPos : 1 ≤ divisorVal) (enough : divisorVal ≤ shapeVal)
    (alignmentPos : 1 < alignmentVal)
    (left : 0 < shapeVal - Signed.alignValUp (divUp shapeVal divisorVal) alignmentVal *
      (divisorVal - 1)) :
    Extents shapeVal divisorVal alignmentVal
      (extentsOf (Signed.alignValUp (divUp shapeVal divisorVal) alignmentVal)
        (shapeVal - Signed.alignValUp (divUp shapeVal divisorVal) alignmentVal * (divisorVal - 1))
        (divisorVal - 1).toNat divisorVal.toNat) := by
  have roundedPos : 0 < divUp shapeVal divisorVal := divUp_pos (by omega) (by omega)
  obtain ⟨divides, above, _⟩ :=
    @Signed.alignValUp_bounds (divUp shapeVal divisorVal) alignmentVal roundedPos.le (by omega)
  generalize Signed.alignValUp (divUp shapeVal divisorVal) alignmentVal = tileSize at *
  obtain ⟨count, equal⟩ : ∃ count : Nat, divisorVal = count + 1 :=
    ⟨(divisorVal - 1).toNat, by omega⟩
  have first : (divisorVal - 1).toNat = count := by omega
  have total : divisorVal.toNat = count + 1 := by omega
  rw [first, total, extentsOf_eq _ _ (Nat.le_add_right count 1), Nat.add_sub_cancel_left,
    replicate_one]
  refine ⟨?_, ?_, ?_, fun _ => ?_⟩
  · rw [length_append, length_replicate, length_singleton, equal]
    rfl
  · intro extent mem
    rcases mem_append.mp mem with inFirst | last
    · rw [eq_of_mem_replicate inFirst]
      omega
    · rw [mem_singleton.mp last]
      exact left
  · rw [sum_append, sum_replicate, sum_singleton, nsmul_eq_mul, equal]
    ring
  · rw [dropLast_concat]
    intro extent mem
    rw [eq_of_mem_replicate mem]
    exact divides

theorem extents_unaligned (divisorPos : 1 ≤ divisorVal)
    (unaligned : ¬ 1 < alignmentVal) {tileSize remainderTileSize : Int} {tileSizeInterval : Nat}
    (interval : tileSizeInterval ≤ divisorVal.toNat) (tilePos : 0 < tileSize)
    (remainderPos : tileSizeInterval < divisorVal.toNat → 0 < remainderTileSize)
    (sum : tileSizeInterval * tileSize + (divisorVal - tileSizeInterval) * remainderTileSize =
      shapeVal) :
    Extents shapeVal divisorVal alignmentVal
      (extentsOf tileSize remainderTileSize tileSizeInterval divisorVal.toNat) := by
  rw [extentsOf_eq _ _ interval]
  refine ⟨?_, ?_, ?_, fun aligned => absurd aligned unaligned⟩
  · rw [length_append, length_replicate, length_replicate]
    omega
  · intro extent mem
    rcases mem_append.mp mem with first | later
    · rw [eq_of_mem_replicate first]
      exact tilePos
    · obtain ⟨some, same⟩ := mem_replicate.mp later
      rw [same]
      exact remainderPos (by omega)
  · rw [sum_append, sum_replicate, sum_replicate, nsmul_eq_mul, nsmul_eq_mul,
      Nat.cast_sub interval, toNat_of_nonneg (by omega)]
    exact sum

theorem divideTileSizeAndInterval_cases (shapeFound : shape[dim]? = some shapeVal)
    (divisorFound : divisors[dim]? = some divisorVal)
    (alignmentFound : alignment[dim]? = some alignmentVal) (divisorPos : 1 ≤ divisorVal) :
    (Indivisible shapeVal divisorVal alignmentVal ∧
        divideTileSizeAndInterval dim divisors shape alignment = .error .failure) ∨
      (¬ Indivisible shapeVal divisorVal alignmentVal ∧
        ∃ tileSize remainderTileSize tileSizeInterval,
          divideTileSizeAndInterval dim divisors shape alignment =
              .ok (tileSize, remainderTileSize, tileSizeInterval) ∧
            Extents shapeVal divisorVal alignmentVal
              (extentsOf tileSize remainderTileSize tileSizeInterval divisorVal.toNat)) := by
  have unfolded : divideTileSizeAndInterval dim divisors shape alignment =
      if shapeVal < divisorVal then .error .failure
      else if 1 < alignmentVal then
        if shapeVal - Signed.alignValUp (divUp shapeVal divisorVal) alignmentVal *
          (divisorVal - 1) ≤ 0
          then .error .failure
        else .ok (Signed.alignValUp (divUp shapeVal divisorVal) alignmentVal,
          shapeVal - Signed.alignValUp (divUp shapeVal divisorVal) alignmentVal * (divisorVal - 1),
          (divisorVal - 1).toNat)
      else if shapeVal.tmod divisorVal ≠ 0 then
        .ok (shapeVal.tdiv divisorVal + 1, shapeVal.tdiv divisorVal,
          (shapeVal.tmod divisorVal).toNat)
      else .ok (shapeVal.tdiv divisorVal, shapeVal.tmod divisorVal, divisorVal.toNat) := by
    unfold divideTileSizeAndInterval
    rw [valueAt_eq shapeFound, valueAt_eq divisorFound, valueAt_eq alignmentFound]
    rfl
  rw [unfolded]
  by_cases small : shapeVal < divisorVal
  · exact .inl ⟨.inl small, if_pos small⟩
  rw [if_neg small]
  have enough := not_lt.mp small
  by_cases alignmentPos : 1 < alignmentVal
  · rw [if_pos alignmentPos]
    by_cases nothing :
        shapeVal - Signed.alignValUp (divUp shapeVal divisorVal) alignmentVal * (divisorVal - 1) ≤ 0
    · exact .inl ⟨.inr ⟨alignmentPos, by omega⟩, if_pos nothing⟩
    · refine .inr ⟨?_, _, _, _, if_neg nothing,
        extents_aligned divisorPos enough alignmentPos (not_le.mp nothing)⟩
      rintro (few | ⟨_, none⟩)
      · exact small few
      · exact nothing (by omega)
  · rw [if_neg alignmentPos]
    have divisible : ¬ Indivisible shapeVal divisorVal alignmentVal := fun indivisible =>
      indivisible.elim small fun aligned => alignmentPos aligned.1
    have split := mul_ediv_add_emod shapeVal divisorVal
    have below := emod_lt_of_pos shapeVal (by omega : 0 < divisorVal)
    have above := emod_nonneg shapeVal (by omega : divisorVal ≠ 0)
    have quotientPos : 1 ≤ shapeVal / divisorVal :=
      (Int.le_ediv_iff_mul_le (by omega)).mpr (by rw [one_mul]; exact enough)
    rw [tmod_eq_emod_of_nonneg (by omega), tdiv_eq_ediv_of_nonneg (by omega)]
    generalize shapeVal / divisorVal = quotient at *
    generalize shapeVal % divisorVal = remainder at *
    by_cases exact : remainder ≠ 0
    · refine .inr ⟨divisible, _, _, _, if_pos exact, extents_unaligned divisorPos alignmentPos
        (by omega) (by omega) (fun _ => quotientPos) ?_⟩
      rw [toNat_of_nonneg above, ← split]
      ring
    · refine .inr ⟨divisible, _, _, _, if_neg exact, extents_unaligned divisorPos alignmentPos
        le_rfl quotientPos (fun less => absurd less (lt_irrefl _)) ?_⟩
      rw [toNat_of_nonneg (by omega), ← split, not_not.mp exact]
      ring

end Dimension

/-! ### Values outside of some dimensions -/

def AgreeOff (dimensions : List Nat) (first second : List Int) : Prop :=
  first.length = second.length ∧ ∀ idx, idx ∉ dimensions → first[idx]? = second[idx]?

section AgreeOff

variable {dimensions : List Nat} {first second third : List Int} {dimension : Nat} {value : Int}

theorem AgreeOff.refl (dimensions : List Nat) (values : List Int) :
    AgreeOff dimensions values values :=
  ⟨rfl, fun _ _ => rfl⟩

theorem AgreeOff.trans (one : AgreeOff dimensions first second)
    (two : AgreeOff dimensions second third) : AgreeOff dimensions first third :=
  ⟨one.1.trans two.1, fun idx outside => (one.2 idx outside).trans (two.2 idx outside)⟩

theorem AgreeOff.weaken (agree : AgreeOff dimensions first second) :
    AgreeOff (dimension :: dimensions) first second :=
  ⟨agree.1, fun idx outside => agree.2 idx fun mem => outside (mem_cons_of_mem _ mem)⟩

theorem agreeOff_set_left : AgreeOff (dimension :: dimensions) (first.set dimension value)
    first := by
  refine ⟨length_set, fun idx outside => getElem?_set_ne fun same => outside ?_⟩
  rw [← same]
  exact mem_cons_self

theorem AgreeOff.set (agree : AgreeOff (dimension :: dimensions) first second) :
    AgreeOff dimensions (first.set dimension value) (second.set dimension value) := by
  refine ⟨?_, fun idx outside => ?_⟩
  · rw [length_set, length_set, agree.1]
  · rw [getElem?_set, getElem?_set, agree.1]
    split
    · rfl
    · next different =>
      refine agree.2 idx fun mem => ?_
      rcases mem_cons.mp mem with same | later
      · exact different same.symm
      · exact outside later

theorem AgreeOff.eq (agree : AgreeOff [] first second) : first = second :=
  ext_getElem? fun idx => agree.2 idx not_mem_nil

end AgreeOff

structure SameOff (dimensions : List Nat) (first second : TileInfo) : Prop where
  shape : AgreeOff dimensions first.shape second.shape
  offsets : AgreeOff dimensions first.offsets second.offsets
  axis : AgreeOff dimensions first.axis second.axis
  isCompletedTile : first.isCompletedTile = second.isCompletedTile

section SameOff

variable {dimensions : List Nat} {first second third : TileInfo} {dimension : Nat}
  {extent offset total : Int}

theorem SameOff.refl (dimensions : List Nat) (tile : TileInfo) : SameOff dimensions tile tile :=
  ⟨.refl _ _, .refl _ _, .refl _ _, rfl⟩

theorem SameOff.trans (one : SameOff dimensions first second)
    (two : SameOff dimensions second third) : SameOff dimensions first third :=
  ⟨one.shape.trans two.shape, one.offsets.trans two.offsets, one.axis.trans two.axis,
    one.isCompletedTile.trans two.isCompletedTile⟩

theorem SameOff.weaken (same : SameOff dimensions first second) :
    SameOff (dimension :: dimensions) first second :=
  ⟨same.shape.weaken, same.offsets.weaken, same.axis.weaken, same.isCompletedTile⟩

theorem sameOff_assign :
    SameOff (dimension :: dimensions) (first.assign dimension extent offset total) first :=
  ⟨agreeOff_set_left, agreeOff_set_left, agreeOff_set_left, rfl⟩

theorem SameOff.assign (same : SameOff (dimension :: dimensions) first second) :
    SameOff dimensions (first.assign dimension extent offset total)
      (second.assign dimension extent offset total) :=
  ⟨same.shape.set, same.offsets.set, same.axis.set, same.isCompletedTile⟩

theorem SameOff.eq (same : SameOff [] first second) : first = second := by
  obtain ⟨shape, offsets, axis, completed⟩ := same
  cases first
  cases second
  rw [TileInfo.mk.injEq]
  exact ⟨shape.eq, offsets.eq, axis.eq, completed⟩

end SameOff

/-! ### The tiles of several dimensions -/

/-- A dimension with its divisor and the spans of its tiles. -/
structure Axis where
  dimension : Nat
  total : Int
  spans : List Span

/-- One tile for each choice of spans. -/
def tilesOf : List Axis → TileInfo → List TileInfo
  | [], tile => [tile]
  | axis :: rest, tile => axis.spans.flatMap fun span =>
    tilesOf rest (tile.assign axis.dimension span.extent span.offset axis.total)

theorem tilesOf_congr (axes : List Axis) {first second : TileInfo}
    (same : SameOff (axes.map Axis.dimension) first second) :
    tilesOf axes first = tilesOf axes second := by
  induction axes generalizing first second with
  | nil => rw [tilesOf, tilesOf, same.eq]
  | cons axis rest ih =>
    rw [tilesOf, tilesOf]
    exact flatMap_congr fun span _ => ih same.assign

/-- A function that stores the tiles of some dimensions. -/
def Stores (axes : List Axis)
    (run : OutputTiling → TileInfo → Except TilingFailure (OutputTiling × TileInfo)) : Prop :=
  ∀ dividedTiles ongoingTile, ∃ last,
    run dividedTiles ongoingTile = .ok (dividedTiles ++ tilesOf axes ongoingTile, last) ∧
      SameOff (axes.map Axis.dimension) last ongoingTile

theorem stores_push : Stores [] fun dividedTiles ongoingTile =>
    .ok (dividedTiles ++ [ongoingTile], ongoingTile) :=
  fun _ ongoingTile => ⟨ongoingTile, rfl, .refl _ _⟩

theorem foldlM_tiles {axes : List Axis}
    {next : OutputTiling → TileInfo → Except TilingFailure (OutputTiling × TileInfo)}
    (stores : Stores axes next) {dimension : Nat} (total : Int) (extentOf : Nat → Int)
    (tile : TileInfo) (indices : List Nat) (division : Division)
    (same : SameOff (dimension :: axes.map Axis.dimension) division.ongoingTile tile) :
    ∃ last : Division, indices.foldlM (fun division tileIndex => do
        let (dividedTiles, ongoingTile) ← next division.dividedTiles
          (division.ongoingTile.assign dimension (extentOf tileIndex) division.tileOffset total)
        return ⟨dividedTiles, ongoingTile, division.tileOffset + extentOf tileIndex⟩) division =
          .ok last ∧
      last.dividedTiles = division.dividedTiles ++
        (place division.tileOffset (indices.map extentOf)).flatMap (fun span =>
          tilesOf axes (tile.assign dimension span.extent span.offset total)) ∧
      SameOff (dimension :: axes.map Axis.dimension) last.ongoingTile tile := by
  induction indices generalizing division with
  | nil => exact ⟨division, rfl, (append_nil _).symm, same⟩
  | cons idx rest ih =>
    obtain ⟨after, stored, sameAfter⟩ := stores division.dividedTiles
      (division.ongoingTile.assign dimension (extentOf idx) division.tileOffset total)
    have kept : SameOff (dimension :: axes.map Axis.dimension) after tile :=
      sameAfter.weaken.trans (sameOff_assign.trans same)
    obtain ⟨last, ran, tiles, sameLast⟩ := ih
      ⟨division.dividedTiles ++ tilesOf axes
        (division.ongoingTile.assign dimension (extentOf idx) division.tileOffset total),
        after, division.tileOffset + extentOf idx⟩ kept
    refine ⟨last, ?_, ?_, sameLast⟩
    · rw [foldlM_cons, stored]
      exact ran
    · rw [tiles, map_cons, place, flatMap_cons, append_assoc, tilesOf_congr axes same.assign]

section Dimensions

variable {divisors shape alignment : List Int} {unrollSpatialFirst : Bool}

structure Divided (divisors shape alignment : List Int) (axis : Axis) : Prop where
  found : divisors[axis.dimension]? = some axis.total
  result : ∃ tileSize remainderTileSize tileSizeInterval,
    divideTileSizeAndInterval axis.dimension divisors shape alignment =
        .ok (tileSize, remainderTileSize, tileSizeInterval) ∧
      axis.spans = place 0
        (extentsOf tileSize remainderTileSize tileSizeInterval axis.total.toNat)

variable {axis : Axis} {dimensionIndex : Nat}
  {next : OutputTiling → TileInfo → Except TilingFailure (OutputTiling × TileInfo)}

theorem divideDimension_stores {axes : List Axis} (stores : Stores axes next)
    (dimension : dimensionAt unrollSpatialFirst dimensionIndex = .ok axis.dimension)
    (divided : Divided divisors shape alignment axis) :
    Stores (axis :: axes)
      (divideDimension divisors shape alignment unrollSpatialFirst dimensionIndex next) := by
  intro dividedTiles ongoingTile
  obtain ⟨tileSize, remainderTileSize, tileSizeInterval, result, spans⟩ := divided.result
  obtain ⟨last, ran, tiles, same⟩ := @foldlM_tiles _ _ stores axis.dimension axis.total
    (fun tileIndex => if tileIndex < tileSizeInterval then tileSize else remainderTileSize)
    ongoingTile (List.range axis.total.toNat) ⟨dividedTiles, ongoingTile, 0⟩ (.refl _ _)
  refine ⟨last.ongoingTile, ?_, same⟩
  refine (ok_bind dimension _).trans ((ok_bind result _).trans
    ((ok_bind (valueAt_eq divided.found) _).trans ((ok_bind ran _).trans ?_)))
  rw [tilesOf, spans, extentsOf, ← tiles]
  rfl

def axesFrom (axisAt : Nat → Axis) (left dimensionIndex : Nat) : List Axis :=
  (List.range' dimensionIndex (left + 1)).map axisAt

theorem divideTiles_stores {axisAt : Nat → Axis} (left dimensionIndex : Nat)
    (each : ∀ idx, dimensionIndex ≤ idx → idx ≤ dimensionIndex + left →
      dimensionAt unrollSpatialFirst idx = .ok (axisAt idx).dimension ∧
        Divided divisors shape alignment (axisAt idx)) :
    Stores (axesFrom axisAt left dimensionIndex)
      (divideTiles divisors shape alignment unrollSpatialFirst left dimensionIndex) := by
  induction left generalizing dimensionIndex with
  | zero =>
    obtain ⟨dimension, divided⟩ := each dimensionIndex le_rfl le_rfl
    exact divideDimension_stores stores_push dimension divided
  | succ left ih =>
    obtain ⟨dimension, divided⟩ := each dimensionIndex le_rfl (Nat.le_add_right _ _)
    have later := ih (dimensionIndex + 1) fun idx above below => each idx (by omega) (by omega)
    have split : axesFrom axisAt (left + 1) dimensionIndex =
        axisAt dimensionIndex :: axesFrom axisAt left (dimensionIndex + 1) := rfl
    rw [split]
    exact divideDimension_stores later dimension divided

/-- A function that fails on every tile. -/
def Fails (run : OutputTiling → TileInfo → Except TilingFailure (OutputTiling × TileInfo)) : Prop :=
  ∀ dividedTiles ongoingTile, run dividedTiles ongoingTile = .error .failure

theorem divideDimension_fails (fails : Fails next)
    (dimension : dimensionAt unrollSpatialFirst dimensionIndex = .ok axis.dimension)
    (divided : Divided divisors shape alignment axis) (pos : 1 ≤ axis.total) :
    Fails (divideDimension divisors shape alignment unrollSpatialFirst dimensionIndex next) := by
  intro dividedTiles ongoingTile
  obtain ⟨tileSize, remainderTileSize, tileSizeInterval, result, _⟩ := divided.result
  obtain ⟨count, total⟩ : ∃ count, axis.total.toNat = count + 1 := ⟨axis.total.toNat - 1, by omega⟩
  refine (ok_bind dimension _).trans ((ok_bind result _).trans
    ((ok_bind (valueAt_eq divided.found) _).trans (error_bind ?_ _)))
  rw [total, range_succ_eq_map, foldlM_cons]
  exact error_bind (error_bind (fails _ _) _) _

theorem divideDimension_fails_here {dimension : Nat}
    (found : dimensionAt unrollSpatialFirst dimensionIndex = .ok dimension)
    (result : divideTileSizeAndInterval dimension divisors shape alignment = .error .failure) :
    Fails (divideDimension divisors shape alignment unrollSpatialFirst dimensionIndex next) :=
  fun _ _ => (ok_bind found _).trans (error_bind result _)

end Dimensions

end NpuPlugin.Tiling
