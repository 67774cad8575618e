/-
This file models how a tensor is distributed over the clusters: a shape is cut into one segment for
each, and with overlapping a cluster holds the part of the input that its segment of the output
reads.
-/

import Mathlib.Algebra.Order.BigOperators.Group.List
import Mathlib.Tactic.LinearCombination
import NpuPlugin.Tiling.BackInferred

namespace NpuPlugin.Distribution

open List Run Spans Tiling

/-- What is thrown. `negativeCount` stands for an insertion of a negative number of copies,
`divisionByZero` and `undefined` for what is not defined. -/
inductive DistributionFailure
  | zeroAlignment
  | invalidSplitAxis (axis rank : Nat)
  | tilesMismatch (axis : Nat) (numClusters : Int)
  | negativeCount (count : Int)
  | divisionByZero
  | notSpatial (axis : Nat)
  | padsRequired
  | backInfer (failure : BackInferFailure)
  | nothingSegmented
  | unsupportedDistribution
deriving DecidableEq, Repr

abbrev Shape := List Int

variable {shapeVal divisorVal alignmentVal align : Int}

section

variable (shape : Shape)

/-- `alignFunc` throws for an alignment of zero. -/
def alignShape (alignment : Option (List Int)) (alignFunc : Int → Int → Int) :
    Except DistributionFailure Shape :=
  match alignment with
  | none => .ok shape
  | some alignment =>
    if alignment.contains 0 then .error .zeroAlignment
    else .ok (List.zipWith alignFunc shape alignment)

/-- `SmallVector::insert` at the end, for a number of copies that is converted to `size_t`. -/
def insertCopies (tiles : List Shape) (count : Int) (tile : Shape) :
    Except DistributionFailure (List Shape) :=
  if count < 0 then .error (.negativeCount count) else .ok
    (tiles ++ List.replicate count.toNat tile)

/-- The value of an `int` variable that an `int64_t` is assigned to. -/
def toInt (value : Int) : Int := value.bmod (2 ^ 32)

/-- `axisAlignment`, which is deduced to be an `int`. -/
def axisAlignmentAt (alignment : Option (List Int)) (axis : Nat) : Int :=
  match alignment with
  | none => 1
  | some alignment => toInt (alignment.getD axis 0)

/-- Split in an equal manner such that first N-1 tiles are equal and the last tile can be less or
equal. -/
def splitEqually (numClusters : Int) (axis : Nat) (alignment : Option (List Int)) :
    Except DistributionFailure (Option (List Shape)) := do
  let tiledShape ← alignShape (shape.set axis (divUp (shape.getD axis 0) numClusters)) alignment
    Signed.alignValUp
  -- Last tile will have the remainder and it doesn't have to be aligned
  let remainder := shape.getD axis 0 - tiledShape.getD axis 0 * (numClusters - 1)
  if remainder ≤ 0 then return none
  else
    let segmentedTiles ← insertCopies [] (numClusters - 1) tiledShape
    return some (segmentedTiles ++ [shape.set axis remainder])

/-- Split into a more balanced approach. For example a height of 6 is split across 4 tile as
[2, 2, 1, 1]. -/
def splitUniformly (numClusters : Int) (axis : Nat)
    (alignment : Option (List Int)) : Except DistributionFailure (Option (List Shape)) := do
  let tiledShape ← alignShape (shape.set axis ((shape.getD axis 0).tdiv numClusters)) alignment
    Signed.alignValDown
  if tiledShape.getD axis 0 ≤ 0 then return none
  else
    let remainderCount := shape.getD axis 0 - tiledShape.getD axis 0 * numClusters
    let axisAlignment := axisAlignmentAt alignment axis
    if axisAlignment = 0 then .error .divisionByZero
    else if remainderCount.tmod axisAlignment ≠ 0 then return none
    else
      let remainderElements := remainderCount.tdiv axisAlignment
      let remainderTileShape := tiledShape.set axis (tiledShape.getD axis 0 + axisAlignment)
      let segmentedTiles ← insertCopies [] remainderElements remainderTileShape
      let segmentedTiles ← insertCopies segmentedTiles (numClusters - remainderElements) tiledShape
      return some segmentedTiles

def splitSegmentedShape (tilingScheme : List Int) (numClusters : Int) (axis : Nat)
    (alignment : Option (List Int)) (uniformDistributedSegments : Bool) :
    Except DistributionFailure (Option (List Shape)) :=
  if shape.length ≤ axis then .error (.invalidSplitAxis axis shape.length)
  else if tilingScheme[axis]? ≠ some numClusters then .error (.tilesMismatch axis numClusters)
  else if numClusters = 0 then .error .divisionByZero
  else if uniformDistributedSegments then splitUniformly shape numClusters axis alignment
  else splitEqually shape numClusters axis alignment

/-- `DistributionMode`, as its flags -/
abbrev DistributionMode := Nat

namespace DistributionMode

def OVERLAPPED : DistributionMode := 0x1

def DUPLICATED : DistributionMode := 0x2

def SEGMENTED : DistributionMode := 0x4

def MULTICASTED : DistributionMode := 0x8

end DistributionMode

def bitEnumContainsAny (mode flag : DistributionMode) : Bool := mode &&& flag != 0

/-- `DistributedTensorNative`. An empty alignment is none. -/
structure DistributedTensor where
  distributionMode : DistributionMode
  numTiles : List Int
  kernel : List Int
  strides : List Int
  pad : Option PadInfo
  numClusters : Int
  alignment : List Int
  uniformDistributedSegments : Bool
deriving DecidableEq, Repr

variable (shape : Shape) (distribution : DistributedTensor)

def DistributedTensor.optionalAlignment : Option (List Int) :=
  if distribution.alignment.isEmpty then none else some distribution.alignment

/-- The length of the scheme when it has no such dimension. -/
def getDistributedTilingAxis (tilingScheme : List Int) : Nat :=
  tilingScheme.findIdx fun dim => 1 < dim

/-- What inference throws is thrown. -/
def liftBackInfer {Value : Type} (res : Except BackInferFailure Value) :
    Except DistributionFailure Value :=
  res.mapError .backInfer

/-- The input range of one output tile, with the padding that it keeps. -/
def inputTileDimRange (kernel strides : List Int) (pad : PadInfo) (axis : Nat)
    (tileSize : DimRange) : Except BackInferFailure (DimRange × Int × Int) :=
  if axis = 2 then do
    let initial ← dimRange 0 (shape.getD 2 0)
    inputForOutputDim tileSize (kernel.getD 0 0) (strides.getD 0 0) initial pad.top pad.bottom
  else do
    let initial ← dimRange 0 (shape.getD 3 0)
    inputForOutputDim tileSize (kernel.getD 1 0) (strides.getD 1 0) initial pad.left pad.right

/-- The input ranges of the output tiles, which lie one behind the other along the axis. -/
def inputTileDimRanges (shape : Shape) (kernel strides : List Int) (pad : PadInfo) (axis : Nat) :
    Int → List Shape → Except BackInferFailure (List DimRange)
  | _, [] => .ok []
  | offset, outputTile :: rest => do
    let dimSize := outputTile.getD axis 0
    let tileSize ← dimRange offset (offset + dimSize)
    let (inputTile, _, _) ← inputTileDimRange shape kernel strides pad axis tileSize
    let ranges ← inputTileDimRanges shape kernel strides pad axis (offset + dimSize) rest
    return inputTile :: ranges

def getOverlappedInputTileDimRanges (tilingScheme kernel strides : List Int)
    (pad : Option PadInfo) (axis : Nat) (numClusters : Int) (uniformDistributedSegments : Bool) :
    Except DistributionFailure (Option (List DimRange)) :=
  if axis ≠ 2 ∧ axis ≠ 3 then .error (.notSpatial axis)
  else match pad with
    | none => .error .padsRequired
    | some pad => do
      let outputHW ← liftBackInfer
        (spatialOutputForInputWindowSize (shape.getD 2 0, shape.getD 3 0) kernel strides pad)
      match outputHW with
      | none => return none
      | some outputHW =>
        let outputShape := [shape.getD 0 0, shape.getD 1 0, outputHW.1, outputHW.2]
        -- Alignment should only be considered for final input shape, not the output shape
        let segmentedShape ← splitSegmentedShape outputShape tilingScheme numClusters axis none
          uniformDistributedSegments
        match segmentedShape with
        | none => return none
        | some outputTiles =>
          let ranges ← liftBackInfer (inputTileDimRanges shape kernel strides pad axis 0
            outputTiles)
          return some ranges

def DistributedTensor.overlappedRanges (shape : Shape) :
    Except DistributionFailure (Option (List DimRange)) :=
  getOverlappedInputTileDimRanges shape distribution.numTiles distribution.kernel
    distribution.strides distribution.pad (getDistributedTilingAxis distribution.numTiles)
    distribution.numClusters distribution.uniformDistributedSegments

def DistributedTensor.isWhole : Bool :=
  bitEnumContainsAny distribution.distributionMode .DUPLICATED ||
    bitEnumContainsAny distribution.distributionMode .MULTICASTED

def getPerClusterMemoryShapes :
    Except DistributionFailure (Option (List Shape)) :=
  if distribution.isWhole then do
    let aligned ← alignShape shape distribution.optionalAlignment Signed.alignValUp
    return some (List.replicate distribution.numClusters.toNat aligned)
  else if distribution.distributionMode = .SEGMENTED then
    let axis := getDistributedTilingAxis distribution.numTiles
    if distribution.numTiles.length ≤ axis then .error .nothingSegmented
    else splitSegmentedShape shape distribution.numTiles distribution.numClusters axis
      distribution.optionalAlignment distribution.uniformDistributedSegments
  else if distribution.distributionMode = .OVERLAPPED then do
    let axis := getDistributedTilingAxis distribution.numTiles
    let ranges ← distribution.overlappedRanges shape
    match ranges with
    | none => return none
    | some ranges =>
      let shapes ← ranges.mapM fun inputTile =>
        alignShape (shape.set axis inputTile.length) distribution.optionalAlignment
          Signed.alignValUp
      return some shapes
  else .error .unsupportedDistribution

def offsetShape (rank axis : Nat) (offset : Int) : Shape := (List.replicate rank 0).set axis offset

/-- The offsets of segments that lie one behind the other along the axis. -/
def segmentOffsets (rank axis : Nat) : Int → List Shape → List Shape
  | _, [] => []
  | offset, tile :: rest =>
    offsetShape rank axis offset :: segmentOffsets rank axis (offset + tile.getD axis 0) rest

def getPerClusterMemoryShapeOffsets :
    Except DistributionFailure (List Shape) :=
  let axis := getDistributedTilingAxis distribution.numTiles
  if distribution.isWhole then
    .ok (List.replicate distribution.numClusters.toNat (List.replicate shape.length 0))
  else if distribution.distributionMode = .SEGMENTED then do
    let shapes ← getPerClusterMemoryShapes shape distribution
    match shapes with
    | none => .error .unsupportedDistribution
    | some shapes => return segmentOffsets shape.length axis 0 shapes
  else if distribution.distributionMode = .OVERLAPPED then do
    let ranges ← distribution.overlappedRanges shape
    match ranges with
    | none => .error .unsupportedDistribution
    | some ranges =>
      return ranges.map fun inputTile => offsetShape shape.length axis inputTile.begin
  else .error .unsupportedDistribution

/-! ### Alignment -/

/-- Every dimension has an alignment. -/
def ValidAlignment (rank : Nat) : Option (List Int) → Prop
  | none => True
  | some alignment => alignment.length = rank ∧ ∀ value ∈ alignment, 0 < value

/-- The alignment of a dimension. -/
def alignmentAt (alignment : Option (List Int)) (axis : Nat) : Int :=
  match alignment with
  | none => 1
  | some alignment => alignment.getD axis 0

variable {shape : Shape} {alignment : Option (List Int)} {axis : Nat}

theorem ValidAlignment.alignmentAt_pos {rank : Nat} (valid : ValidAlignment rank alignment)
    (inside : axis < rank) : 0 < alignmentAt alignment axis := by
  cases alignment with
  | none => exact Int.one_pos
  | some alignment =>
    have small : axis < alignment.length := inside.trans_eq valid.1.symm
    unfold alignmentAt
    dsimp only
    rw [getD_eq_getElem alignment 0 small]
    exact valid.2 _ (getElem_mem small)

theorem alignValUp_one (val : Int) : Signed.alignValUp val 1 = val := by
  unfold Signed.alignValUp
  dsimp only
  rw [sub_self, mul_zero, add_zero, Int.tdiv_one, mul_one]

theorem alignValDown_one (val : Int) : Signed.alignValDown val 1 = val := by
  unfold Signed.alignValDown
  rw [Int.tdiv_one, mul_one]

variable {alignFunc : Int → Int → Int}

theorem alignShape_ok (one : ∀ val, alignFunc val 1 = val)
    (valid : ValidAlignment shape.length alignment) :
    ∃ aligned, alignShape shape alignment alignFunc = .ok aligned ∧
      aligned.length = shape.length ∧ ∀ dim < shape.length,
        aligned.getD dim 0 =
          alignFunc (shape.getD dim 0) (alignmentAt alignment dim) := by
  cases alignment with
  | none => exact ⟨shape, rfl, rfl, fun dim _ => (one _).symm⟩
  | some alignment =>
    obtain ⟨length, pos⟩ := valid
    have nonzero : ¬ alignment.contains 0 = true := fun mem =>
      lt_irrefl 0 (pos 0 (contains_iff_mem.mp mem))
    refine ⟨_, if_neg nonzero, ?_, fun dim inside => ?_⟩
    · rw [length_zipWith, length, min_self]
    · have small : dim < alignment.length := inside.trans_eq length.symm
      unfold alignmentAt
      dsimp only
      rw [getD_eq_getElem _ 0 (by rw [length_zipWith]; exact lt_min inside small),
        getElem_zipWith, getD_eq_getElem shape 0 inside,
        getD_eq_getElem alignment 0 small]

/-! ### Segments -/

theorem insertCopies_ok (tiles : List Shape) {count : Int} (nonneg : 0 ≤ count) (tile : Shape) :
    insertCopies tiles count tile = .ok (tiles ++ List.replicate count.toNat tile) :=
  if_neg nonneg.not_gt

theorem toInt_eq {value : Int} (nonneg : 0 ≤ value) (small : value < 2 ^ 31) :
    toInt value = value := by
  exact Int.bmod_eq_of_le (by omega) (by omega)

theorem getD_set_self (inside : axis < shape.length) (value : Int) :
    (shape.set axis value).getD axis 0 = value := by
  rw [getD_eq_getElem _ 0 (by rw [length_set]; exact inside), getElem_set_self]

theorem getD_set_other {dim : Nat} (other : dim ≠ axis) (value : Int) :
    (shape.set axis value).getD dim 0 = shape.getD dim 0 := by
  unfold getD
  rw [getElem?_set_ne other.symm]

/-- The extents along the axis. -/
def extentsAlong (axis : Nat) (tiles : List Shape) : List Int := tiles.map fun tile =>
    tile.getD axis 0

theorem extents_of_two {first second : Int} {front back : Nat}
    (length : ((front + back : Nat) : Int) = divisorVal) (firstPos : 0 < front → 0 < first)
    (secondPos : 0 < second) (sum : front * first + back * second = shapeVal)
    (aligned : 1 < alignmentVal → alignmentVal ∣ first ∧ (1 < back → alignmentVal ∣ second)) :
    Extents shapeVal divisorVal alignmentVal
      (List.replicate front first ++ List.replicate back second) := by
  refine ⟨?_, ?_, ?_, fun large extent mem => ?_⟩
  · rw [length_append, length_replicate, length_replicate, length]
  · intro extent mem
    rcases mem_append.mp mem with inFront | inBack
    · obtain ⟨some, same⟩ := mem_replicate.mp inFront
      rw [same]
      exact firstPos (by omega)
    · rw [eq_of_mem_replicate inBack]
      exact secondPos
  · rw [sum_append, sum_replicate, sum_replicate, nsmul_eq_mul, nsmul_eq_mul, sum]
  · obtain ⟨ofFirst, ofSecond⟩ := aligned large
    cases back with
    | zero =>
      rw [replicate_zero, append_nil] at mem
      rw [eq_of_mem_replicate (dropLast_subset _ mem)]
      exact ofFirst
    | succ others =>
      rw [replicate_succ', ← append_assoc, dropLast_concat] at mem
      rcases mem_append.mp mem with inFront | inBack
      · rw [eq_of_mem_replicate inFront]
        exact ofFirst
      · obtain ⟨some, same⟩ := mem_replicate.mp inBack
        rw [same]
        exact ofSecond (by omega)

theorem extentsAlong_two (axis : Nat) (first second : Shape) (front back : Nat) :
    extentsAlong axis (List.replicate front first ++ List.replicate back second) =
      List.replicate front (first.getD axis 0) ++ List.replicate back (second.getD axis 0) := by
  unfold extentsAlong
  rw [map_append, map_replicate, map_replicate]

/-- An extent can be split: something is left for the last cluster, or with the balanced split the
extent is a multiple of the alignment that is large enough for all clusters. -/
def Splittable (extent numClusters align : Int) (uniformDistributedSegments : Bool) : Prop :=
  if uniformDistributedSegments then align * numClusters ≤ extent ∧ align ∣ extent
  else Signed.alignValUp (divUp extent numClusters) align * (numClusters - 1) < extent

instance (extent numClusters align : Int) (uniformDistributedSegments : Bool) :
    Decidable (Splittable extent numClusters align uniformDistributedSegments) :=
  inferInstanceAs (Decidable (if uniformDistributedSegments = true then _ ∧ _ else _ < _))

/-- A shape is split into one positive extent for every cluster, or it cannot be split. -/
def SplitsInto (axis : Nat) (shape : Shape) (numClusters align : Int)
    (uniformDistributedSegments : Bool)
    (res : Except DistributionFailure (Option (List Shape))) : Prop :=
  (¬ Splittable (shape.getD axis 0) numClusters align uniformDistributedSegments ∧ res = .ok none) ∨
    (Splittable (shape.getD axis 0) numClusters align uniformDistributedSegments ∧
      ∃ tiles, res = .ok (some tiles) ∧
        Extents (shape.getD axis 0) numClusters align (extentsAlong axis tiles))

theorem alignShape_set (one : ∀ val, alignFunc val 1 = val)
    (inside : axis < shape.length) (valid : ValidAlignment shape.length alignment) (value : Int) :
    ∃ aligned, alignShape (shape.set axis value) alignment alignFunc = .ok aligned ∧
      axis < aligned.length ∧
      aligned.getD axis 0 = alignFunc value (alignmentAt alignment axis) := by
  have length : (shape.set axis value).length = shape.length := length_set
  obtain ⟨aligned, res, same, each⟩ :=
    alignShape_ok one ((congrArg (ValidAlignment · alignment) length).mpr valid)
  have here := each axis (inside.trans_eq length.symm)
  rw [getD_set_self inside] at here
  exact ⟨aligned, res, by omega, here⟩

variable {numClusters : Int}

theorem splitEqually_into (inside : axis < shape.length)
    (valid : ValidAlignment shape.length alignment) (nonneg : 0 ≤ shape.getD axis 0)
    (clusters : 0 < numClusters) :
    SplitsInto axis shape numClusters (alignmentAt alignment axis) false
      (splitEqually shape numClusters axis alignment) := by
  have rounded := divUp_nonneg nonneg clusters
  obtain ⟨fills, _⟩ := divUp_bounds nonneg clusters
  obtain ⟨tiled, res, _, size⟩ :=
    alignShape_set alignValUp_one inside valid (divUp (shape.getD axis 0) numClusters)
  obtain ⟨divides, above, _⟩ := Signed.alignValUp_bounds rounded (valid.alignmentAt_pos inside)
  rw [← size] at divides above
  by_cases nothing : shape.getD axis 0 - tiled.getD axis 0 * (numClusters - 1) ≤ 0
  · refine .inl ⟨fun splittable => ?_, (ok_bind res _).trans (if_pos nothing)⟩
    have left : Signed.alignValUp _ _ * (numClusters - 1) < shape.getD axis 0 := splittable
    rw [← size] at left
    omega
  · have copies := insertCopies_ok [] (by omega : 0 ≤ numClusters - 1) tiled
    have left : tiled.getD axis 0 * (numClusters - 1) < shape.getD axis 0 := by omega
    refine .inr ⟨?_, _, (ok_bind res _).trans ((if_neg nothing).trans (ok_bind copies _)), ?_⟩
    · rw [size] at left
      exact left
    rw [nil_append, ← replicate_one, extentsAlong_two, getD_set_self inside]
    refine extents_of_two (by omega) (fun _ => ?_) (not_le.mp nothing) ?_
      fun _ => ⟨divides, fun more => absurd more (lt_irrefl _)⟩
    · by_contra empty
      have none : tiled.getD axis 0 = 0 := by omega
      have zero : divUp (shape.getD axis 0) numClusters = 0 := by omega
      rw [none, zero_mul] at nothing
      rw [zero, zero_mul] at fills
      omega
    · rw [Int.toNat_of_nonneg (by omega)]
      ring

theorem axisAlignmentAt_eq {rank : Nat} (valid : ValidAlignment rank alignment)
    (inside : axis < rank) (small : alignmentAt alignment axis < 2 ^ 31) :
    axisAlignmentAt alignment axis = alignmentAt alignment axis := by
  cases alignment with
  | none => rfl
  | some alignment => exact toInt_eq (valid.alignmentAt_pos inside).le small

theorem remainder_bounds {extent tiled : Int} (clusters : 0 < numClusters)
    (below : tiled ≤ extent / numClusters) (above : extent / numClusters < tiled + align) :
    0 ≤ extent - tiled * numClusters ∧ extent - tiled * numClusters < align * numClusters := by
  have split := Int.mul_ediv_add_emod extent numClusters
  have rest := Int.emod_nonneg extent clusters.ne'
  have less := Int.emod_lt_of_pos extent clusters
  generalize extent / numClusters = quotient at *
  generalize extent % numClusters = remainder at *
  have low : tiled * numClusters ≤ quotient * numClusters :=
    mul_le_mul_of_nonneg_right below clusters.le
  have high : (quotient + 1) * numClusters ≤ (tiled + align) * numClusters :=
    mul_le_mul_of_nonneg_right above clusters.le
  rw [add_mul, add_mul, one_mul] at high
  rw [mul_comm numClusters] at split
  omega

theorem splitUniformly_into (inside : axis < shape.length)
    (valid : ValidAlignment shape.length alignment) (small : alignmentAt alignment axis < 2 ^ 31)
    (nonneg : 0 ≤ shape.getD axis 0) (clusters : 0 < numClusters) :
    SplitsInto axis shape numClusters (alignmentAt alignment axis) true
      (splitUniformly shape numClusters axis alignment) := by
  have alignPos := valid.alignmentAt_pos inside
  have narrowed := axisAlignmentAt_eq valid inside small
  obtain ⟨tiled, res, long, size⟩ := alignShape_set alignValDown_one inside valid
    ((shape.getD axis 0).tdiv numClusters)
  rw [Int.tdiv_eq_ediv_of_nonneg nonneg] at size
  obtain ⟨divides, below, above⟩ :=
    Signed.alignValDown_bounds (Int.ediv_nonneg nonneg clusters.le) alignPos
  rw [← size] at divides below above
  obtain ⟨remains, fewer⟩ := remainder_bounds clusters below above
  generalize alignmentAt alignment axis = align at *
  unfold splitUniformly
  rw [narrowed]
  have enough : align ≤ shape.getD axis 0 / numClusters ↔
      align * numClusters ≤ shape.getD axis 0 := Int.le_ediv_iff_mul_le clusters
  by_cases empty : tiled.getD axis 0 ≤ 0
  · refine .inl ⟨fun splittable => ?_, (ok_bind res _).trans (if_pos empty)⟩
    have room := enough.mpr splittable.1
    omega
  by_cases uneven : (shape.getD axis 0 - tiled.getD axis 0 * numClusters).tmod align ≠ 0
  · refine .inl ⟨fun splittable => uneven ?_, (ok_bind res _).trans
      ((if_neg empty).trans ((if_neg alignPos.ne').trans (if_pos uneven)))⟩
    exact Int.tmod_eq_zero_of_dvd
      (Int.dvd_sub splittable.2 (Dvd.dvd.mul_right divides numClusters))
  · have whole := Int.mul_tdiv_add_tmod
      (shape.getD axis 0 - tiled.getD axis 0 * numClusters) align
    rw [not_not.mp uneven, add_zero] at whole
    generalize elements :
      (shape.getD axis 0 - tiled.getD axis 0 * numClusters).tdiv align = count at *
    have countNonneg : 0 ≤ count :=
      nonneg_of_mul_nonneg_right (remains.trans_eq whole.symm) alignPos
    have countLt : count < numClusters := lt_of_mul_lt_mul_left (whole.trans_lt fewer) alignPos.le
    have larger := insertCopies_ok [] countNonneg
      (tiled.set axis (tiled.getD axis 0 + align))
    have others := insertCopies_ok
      ([] ++ replicate count.toNat (tiled.set axis (tiled.getD axis 0 + align)))
      (by omega : 0 ≤ numClusters - count) tiled
    refine .inr ⟨⟨?_, ?_⟩, replicate count.toNat (tiled.set axis (tiled.getD axis 0 + align)) ++
        replicate (numClusters - count).toNat tiled, (ok_bind res _).trans
        ((if_neg empty).trans ((if_neg alignPos.ne').trans ((if_neg uneven).trans ?_))), ?_⟩
    · exact enough.mp ((Int.le_of_dvd (not_le.mp empty) divides).trans below)
    · have parts : shape.getD axis 0 = align * count + tiled.getD axis 0 * numClusters := by
        omega
      rw [parts]
      exact Int.dvd_add (Int.dvd_mul_right align count) (Dvd.dvd.mul_right divides numClusters)
    · dsimp only
      rw [elements]
      exact (ok_bind larger _).trans (ok_bind others _)
    · rw [extentsAlong_two, getD_set_self long]
      refine extents_of_two (by omega) (fun _ => by omega) (not_le.mp empty) ?_
        fun _ => ⟨Int.dvd_add divides (Int.dvd_refl align), fun _ => divides⟩
      rw [Int.toNat_of_nonneg countNonneg, Int.toNat_of_nonneg (by omega)]
      linear_combination whole

theorem splitSegmentedShape_into {tilingScheme : List Int} {numClusters : Int}
    {uniformDistributedSegments : Bool} (inside : axis < shape.length)
    (scheme : tilingScheme[axis]? = some numClusters)
    (valid : ValidAlignment shape.length alignment) (small : alignmentAt alignment axis < 2 ^ 31)
    (nonneg : 0 ≤ shape.getD axis 0) (clusters : 0 < numClusters) :
    SplitsInto axis shape numClusters (alignmentAt alignment axis) uniformDistributedSegments
      (splitSegmentedShape shape tilingScheme numClusters axis alignment
        uniformDistributedSegments) := by
  unfold splitSegmentedShape
  rw [if_neg inside.not_ge, if_neg (not_not.mpr scheme), if_neg clusters.ne']
  cases uniformDistributedSegments with
  | false => exact splitEqually_into inside valid nonneg clusters
  | true => exact splitUniformly_into inside valid small nonneg clusters

end

/-! ### The distribution -/

/-- A layer whose input is distributed with overlapping. -/
structure Overlapping where
  layer : Layer
  batch : Int
  channels : Int
  numTiles : List Int
  numClusters : Int
  alignment : List Int
  uniformDistributedSegments : Bool

namespace Overlapping

variable (layout : Overlapping)

def shape : Shape := layout.layer.inputShape layout.batch layout.channels

def distribution : DistributedTensor where
  distributionMode := .OVERLAPPED
  numTiles := layout.numTiles
  kernel := layout.layer.kernel
  strides := layout.layer.strides
  pad := some layout.layer.pads
  numClusters := layout.numClusters
  alignment := layout.alignment
  uniformDistributedSegments := layout.uniformDistributedSegments

def axis : Nat := getDistributedTilingAxis layout.numTiles

/-- The dimension that is split. -/
def window : Window := if layout.axis = 2 then layout.layer.height else layout.layer.width

/-- What the verification of the attribute demands. -/
structure Verified : Prop where
  layer : layout.layer.WellFormed
  planar : layout.axis = 2 ∨ layout.axis = 3
  scheme : layout.numTiles[layout.axis]? = some layout.numClusters
  alignment : ValidAlignment 4 layout.distribution.optionalAlignment
  unaligned : alignmentAt layout.distribution.optionalAlignment layout.axis = 1
  occupied : ∀ extent ∈ layout.shape, 0 < extent

/-- The layer has outputs, and they can be split. -/
structure Shareable : Prop where
  height : 0 < layout.layer.height.outputs
  width : 0 < layout.layer.width.outputs
  splittable : Splittable layout.window.outputs layout.numClusters 1
    layout.uniformDistributedSegments

end Overlapping

/-- The outputs of a cluster. -/
def share (span : Span) : DimRange := ⟨span.offset, span.offset + span.extent⟩

variable {layout : Overlapping}

theorem Overlapping.Verified.clusters (verified : layout.Verified) : 1 < layout.numClusters := by
  have scheme := verified.scheme
  obtain ⟨inside, same⟩ := List.getElem?_eq_some_iff.mp scheme
  have found := @findIdx_getElem _ (fun dim : Int => decide (1 < dim)) layout.numTiles inside
  rw [← same]
  exact of_decide_eq_true found

/-! ### The input ranges -/

theorem inputTileDimRange_eq (verified : layout.Verified) (fits : layout.window.Fits)
    {output : DimRange} (has : layout.window.Has output) :
    inputTileDimRange layout.shape layout.layer.kernel layout.layer.strides layout.layer.pads
      layout.axis
      output = .ok (layout.window.input output, layout.window.before output,
        layout.window.after output) := by
  by_cases vertical : layout.axis = 2
  · have same : layout.window = layout.layer.height := if_pos vertical
    rw [same] at fits has ⊢
    refine (if_pos vertical).trans ((ok_bind (dimRange_eq fits.extent_pos.le) _).trans ?_)
    exact inputForOutputDim_eq verified.layer.height fits has
  · have same : layout.window = layout.layer.width := if_neg vertical
    rw [same] at fits has ⊢
    refine (if_neg vertical).trans ((ok_bind (dimRange_eq fits.extent_pos.le) _).trans ?_)
    exact inputForOutputDim_eq verified.layer.width fits has

theorem inputTileDimRanges_eq (verified : layout.Verified) (fits : layout.window.Fits)
    (offset : Int) (tiles : List Shape)
    (has : ∀ span ∈ place offset (extentsAlong layout.axis tiles), layout.window.Has (share span)) :
    inputTileDimRanges layout.shape layout.layer.kernel layout.layer.strides layout.layer.pads
      layout.axis
      offset tiles = .ok ((place offset (extentsAlong layout.axis tiles)).map fun span =>
        layout.window.input (share span)) := by
  induction tiles generalizing offset with
  | nil => rfl
  | cons tile rest ih =>
    have here := has ⟨offset, tile.getD layout.axis 0⟩ mem_cons_self
    have later := ih (offset + tile.getD layout.axis 0) (forall_mem_cons.mp has).2
    have range : dimRange offset (offset + tile.getD layout.axis 0) =
        .ok (share ⟨offset, tile.getD layout.axis 0⟩) := if_pos here.occupied.le
    refine (ok_bind range _).trans ?_
    refine (ok_bind (inputTileDimRange_eq verified fits here) _).trans ?_
    exact ok_bind later _

/-- What the clusters hold. -/
def Overlapping.ranges (layout : Overlapping) (extents : List Int) : List DimRange :=
  (place 0 extents).map fun span => layout.window.input (share span)

theorem fits_of_two {window : Window} (wellFormed : window.WellFormed)
    (extent_pos : 0 < window.extent) (two : 2 ≤ window.outputs) : window.Fits := by
  refine ⟨extent_pos, ?_⟩
  by_contra exceeds
  unfold Window.outputs outputExtent at two
  have flipped : window.extent - window.kernel + window.padBefore + window.padAfter =
      -(window.kernel - window.extent - window.padBefore - window.padAfter) := by omega
  have steps : 0 ≤ (window.kernel - window.extent - window.padBefore - window.padAfter) /
      window.stride := Int.ediv_nonneg (by omega) wellFormed.stride_pos.le
  rw [flipped, Int.neg_tdiv, Int.tdiv_eq_ediv_of_nonneg (by omega)] at two
  omega

section

variable (verified : layout.Verified)
include verified

theorem Overlapping.Verified.wellFormed : layout.window.WellFormed := by
  unfold Overlapping.window
  split
  · exact verified.layer.height
  · exact verified.layer.width

theorem Overlapping.Verified.axis_lt : layout.axis < 4 := by
  have := verified.planar
  omega

theorem Overlapping.Verified.extent_pos : 0 < layout.window.extent := by
  unfold Overlapping.window
  split
  · exact verified.occupied _ (by
      unfold Overlapping.shape Layer.inputShape
      simp only [mem_cons, true_or, or_true])
  · exact verified.occupied _ (by
      unfold Overlapping.shape Layer.inputShape
      simp only [mem_cons, true_or, or_true])

end

variable {extents : List Int}

theorem le_of_extents (of : Extents shapeVal divisorVal alignmentVal extents) :
    divisorVal ≤ shapeVal := by
  have counted := card_nsmul_le_sum extents 1 of.positive
  rw [of.sum, nsmul_eq_mul, mul_one, of.length] at counted
  exact counted

/-- Spans with the extents of a split are outputs that the window has. -/
theorem has_share {window : Window} {numClusters : Int}
    (of : Extents window.outputs numClusters align extents) {span : Span}
    (mem : span ∈ place 0 extents) : window.Has (share span) := by
  have consecutive := place_consecutive 0 of.positive
  rw [of.sum, zero_add] at consecutive
  obtain ⟨above, positive, below⟩ := consecutive.bounds mem
  exact ⟨above, by unfold share; dsimp only; omega, below⟩

/-- The shape of the outputs. -/
def Overlapping.outputShape (layout : Overlapping) : Shape :=
  [layout.batch, layout.channels, layout.layer.height.outputs, layout.layer.width.outputs]

theorem Overlapping.Verified.outputs_eq (verified : layout.Verified) :
    layout.outputShape.getD layout.axis 0 = layout.window.outputs := by
  unfold Overlapping.window
  rcases verified.planar with vertical | horizontal
  · rw [if_pos vertical, vertical]
    rfl
  · rw [if_neg (by omega), horizontal]
    rfl

theorem overlappedRanges_cases (verified : layout.Verified) :
    (¬ layout.Shareable ∧ layout.distribution.overlappedRanges layout.shape = .ok none) ∨
      (layout.Shareable ∧ ∃ extents, Extents layout.window.outputs layout.numClusters 1 extents ∧
        layout.distribution.overlappedRanges layout.shape =
          .ok (some (layout.ranges extents))) := by
  have planar : ¬ (layout.axis ≠ 2 ∧ layout.axis ≠ 3) := by
    have := verified.planar
    omega
  have spatial : liftBackInfer (layout.layer.spatialOutput layout.layer.height.extent
      layout.layer.width.extent layout.layer.pads) =
        .ok (if layout.layer.height.outputs ≤ 0 ∨ layout.layer.width.outputs ≤ 0 then none
          else some (layout.layer.height.outputs, layout.layer.width.outputs)) := by
    rw [verified.layer.spatialOutput_eq]
    rfl
  by_cases none : layout.layer.height.outputs ≤ 0 ∨ layout.layer.width.outputs ≤ 0
  · rw [if_pos none] at spatial
    refine .inl ⟨fun shareable => ?_, (if_neg planar).trans (ok_bind spatial _)⟩
    have height := shareable.height
    have width := shareable.width
    omega
  · rw [if_neg none] at spatial
    obtain ⟨tall, wide⟩ := not_or.mp none
    have outputs := verified.outputs_eq
    have nonneg : 0 ≤ layout.outputShape.getD layout.axis 0 := by
      rw [outputs]
      unfold Overlapping.window
      split <;> omega
    have split := @splitSegmentedShape_into layout.outputShape Option.none layout.axis
      layout.numTiles layout.numClusters layout.uniformDistributedSegments verified.axis_lt
      verified.scheme trivial (show (1 : Int) < 2 ^ 31 by decide) nonneg
      (Int.one_pos.trans verified.clusters)
    unfold SplitsInto at split
    rw [outputs] at split
    rcases split with ⟨whole, res⟩ | ⟨splittable, tiles, res, of⟩
    · exact .inl ⟨fun shareable => whole shareable.splittable, (if_neg planar).trans
        ((ok_bind spatial _).trans (ok_bind res _))⟩
    · have fits : layout.window.Fits := by
        refine fits_of_two verified.wellFormed verified.extent_pos ?_
        exact verified.clusters.trans_le (le_of_extents of)
      have ranges := inputTileDimRanges_eq verified fits 0 tiles fun span mem => has_share of mem
      refine .inr ⟨⟨not_le.mp tall, not_le.mp wide, splittable⟩, _, of, (if_neg planar).trans
        ((ok_bind spatial _).trans ((ok_bind res _).trans ?_))⟩
      have lifted : liftBackInfer (inputTileDimRanges layout.shape layout.layer.kernel
          layout.layer.strides layout.layer.pads layout.axis 0 tiles) =
            .ok (layout.ranges (extentsAlong layout.axis tiles)) := by
        rw [ranges]
        rfl
      exact ok_bind lifted _

/-! ### What the clusters hold -/

/-- A cluster holds what its outputs read: along the axis a part of the input, and along the other
dimensions everything, rounded up to the alignment. -/
structure Overlapping.Holds (layout : Overlapping) (output : DimRange) (shape offset : Shape) :
    Prop where
  begin_nonneg : 0 ≤ offset.getD layout.axis 0
  stop_le : offset.getD layout.axis 0 + shape.getD layout.axis 0 ≤ layout.window.extent
  reads : ∀ position idx, output.begin ≤ idx → idx < output.stop →
    layout.window.Reads idx position → 0 ≤ position → position < layout.window.extent →
    offset.getD layout.axis 0 ≤ position ∧
      position < offset.getD layout.axis 0 + shape.getD layout.axis 0
  others : ∀ dimension < 4, dimension ≠ layout.axis → offset.getD dimension 0 = 0 ∧
    shape.getD dimension 0 = Signed.alignValUp (layout.shape.getD dimension 0)
      (alignmentAt layout.distribution.optionalAlignment dimension)

/-- The clusters share the outputs, and each of them holds what its share reads. -/
structure Overlapping.Shared (layout : Overlapping) (extents : List Int)
    (shapes offsets : List Shape) : Prop where
  share : Extents layout.window.outputs layout.numClusters 1 extents
  shapes_length : (shapes.length : Int) = layout.numClusters
  offsets_length : (offsets.length : Int) = layout.numClusters
  holds : ∀ (cluster : Nat) span shape offset, (place 0 extents)[cluster]? = some span →
    shapes[cluster]? = some shape → offsets[cluster]? = some offset →
    layout.Holds (Distribution.share span) shape offset

/-- The aligned shape of a cluster's part of the input. -/
theorem alignShape_part (verified : layout.Verified) (length : Int) :
    ∃ aligned, alignShape (layout.shape.set layout.axis length)
        layout.distribution.optionalAlignment Signed.alignValUp = .ok aligned ∧
      aligned.getD layout.axis 0 = length ∧ ∀ dimension < 4, dimension ≠ layout.axis →
        aligned.getD dimension 0 = Signed.alignValUp (layout.shape.getD dimension 0)
          (alignmentAt layout.distribution.optionalAlignment dimension) := by
  have rank : (layout.shape.set layout.axis length).length = 4 := length_set
  have inside : layout.axis < layout.shape.length := verified.axis_lt
  obtain ⟨aligned, res, _, each⟩ := alignShape_ok alignValUp_one
    ((congrArg (ValidAlignment · layout.distribution.optionalAlignment) rank).mpr
      verified.alignment)
  refine ⟨aligned, res, ?_, fun dimension small other => ?_⟩
  · rw [each layout.axis (verified.axis_lt.trans_eq rank.symm), getD_set_self inside,
      verified.unaligned, alignValUp_one]
  · rw [each dimension (small.trans_eq rank.symm), getD_set_other other]

theorem offsetShape_self {rank axis : Nat} (inside : axis < rank) (offset : Int) :
    (offsetShape rank axis offset).getD axis 0 = offset :=
  getD_set_self (by rw [length_replicate]; exact inside) offset

theorem offsetShape_other {rank axis dimension : Nat} (other : dimension ≠ axis) (offset : Int) :
    (offsetShape rank axis offset).getD dimension 0 = 0 := by
  unfold offsetShape
  rw [getD_set_other other]
  unfold getD
  rw [getElem?_replicate]
  split <;> rfl

/-- Either nothing is given to the clusters, or every cluster holds what its share reads. -/
theorem overlapped_cases (verified : layout.Verified) :
    (¬ layout.Shareable ∧ getPerClusterMemoryShapes layout.shape layout.distribution = .ok none ∧
        getPerClusterMemoryShapeOffsets layout.shape layout.distribution =
          .error .unsupportedDistribution) ∨
      (layout.Shareable ∧ ∃ extents shapes offsets,
        getPerClusterMemoryShapes layout.shape layout.distribution = .ok (some shapes) ∧
        getPerClusterMemoryShapeOffsets layout.shape layout.distribution = .ok offsets ∧
        layout.Shared extents shapes offsets) := by
  have mode : layout.distribution.distributionMode = .OVERLAPPED := rfl
  have whole : ¬ (bitEnumContainsAny .OVERLAPPED .DUPLICATED ||
      bitEnumContainsAny .OVERLAPPED .MULTICASTED) = true := by decide
  unfold getPerClusterMemoryShapes getPerClusterMemoryShapeOffsets DistributedTensor.isWhole
  rw [mode]
  rcases overlappedRanges_cases verified with ⟨whole, ranges⟩ | ⟨shareable, extents, of, ranges⟩
  · exact .inl ⟨whole, ok_bind ranges _, ok_bind ranges _⟩
  choose part aligned along others using fun inputTile : DimRange =>
    alignShape_part verified inputTile.length
  have shapes : ((layout.ranges extents).mapM fun inputTile => alignShape
      (layout.shape.set layout.axis inputTile.length) layout.distribution.optionalAlignment
      Signed.alignValUp) = .ok ((layout.ranges extents).map part) :=
    mapM_ok _ fun inputTile _ => aligned inputTile
  refine .inr ⟨shareable, extents, (layout.ranges extents).map part,
    (layout.ranges extents).map fun inputTile => offsetShape 4 layout.axis inputTile.begin,
    (ok_bind ranges _).trans (ok_bind shapes _), ok_bind ranges _, of, ?_, ?_, ?_⟩
  · unfold Overlapping.ranges
    rw [length_map, length_map, length_place, of.length]
  · unfold Overlapping.ranges
    rw [length_map, length_map, length_place, of.length]
  · intro cluster span shape offset found shapeFound offsetFound
    have fits : layout.window.Fits := fits_of_two verified.wellFormed verified.extent_pos
      (verified.clusters.trans_le (le_of_extents of))
    have exact := (has_share of (mem_of_getElem? found)).exact verified.wellFormed fits
    unfold Overlapping.ranges at shapeFound offsetFound
    rw [getElem?_map, getElem?_map, found] at shapeFound offsetFound
    obtain rfl := Option.some.inj shapeFound
    obtain rfl := Option.some.inj offsetFound
    have stop : ∀ inputTile : DimRange, inputTile.begin + inputTile.length = inputTile.stop :=
      fun inputTile => add_sub_cancel _ _
    refine ⟨?_, ?_, fun position idx => ?_, fun dimension small other =>
      ⟨offsetShape_other other _, others _ dimension small other⟩⟩
    · rw [offsetShape_self verified.axis_lt]
      exact exact.begin_nonneg
    · rw [offsetShape_self verified.axis_lt, along, stop]
      exact exact.stop_le
    · rw [offsetShape_self verified.axis_lt, along, stop]
      exact exact.reads position idx

/-- Six rows of outputs for three clusters. -/
def stridedLayout : Overlapping := ⟨stridedLayer, 1, 16, [1, 1, 3, 1], 3, [1, 16, 1, 1], true⟩

theorem stridedLayout_verified : stridedLayout.Verified where
  layer := ⟨by constructor <;> decide, by constructor <;> decide⟩
  planar := .inl (by decide)
  scheme := by decide
  alignment := ⟨rfl, by decide⟩
  unaligned := by decide
  occupied := by decide

/-- Four rows of outputs for three clusters: the first two take all of them. -/
def unevenLayout : Overlapping :=
  ⟨⟨⟨4, 1, 1, 0, 0⟩, ⟨4, 1, 1, 0, 0⟩⟩, 1, 16, [1, 1, 3, 1], 3, [], false⟩

end NpuPlugin.Distribution
