/-
This file models the transposition of a constant and shows when the elements, and the axis of a
quantized type, end up where the transposition moves them.
-/

import NpuPlugin.ConstTransformations.MemPermute

namespace NpuPlugin.ConstTransformations

open Bool Copies List MixedRadix Nat

def DimsOrder.compose (outer inner : DimsOrder) (sameRank : outer.numDims = inner.numDims) :
    DimsOrder where
  dims := outer.dims.map inner.dimAt
  isPermutation := by
    have whole : (List.range inner.dims.length).map inner.dimAt = inner.dims :=
      ext_getElem (by simp) fun position _ inside => by
        simp [DimsOrder.dimAt, getD_eq_getElem?_getD, inside]
    have same := outer.isPermutation.map inner.dimAt
    rw [show outer.dims.length = inner.dims.length from sameRank, whole] at same
    rw [same.length_eq]
    exact same.trans inner.isPermutation

structure TransposeAttr where
  order : DimsOrder

namespace TransposeAttr

def outElemType (attr : TransposeAttr) (elemType : ElemType) : ElemType :=
  match elemType with
  | .quantizedPerAxis _ inQuantizeDim _ => changeAxis (attr.order.dimAt inQuantizeDim) elemType
  | type => type

def inferOutputType (attr : TransposeAttr) (input : NDType) : Option NDType :=
  if attr.order.numDims = input.shape.length then
    let newShape := (List.range input.shape.length).map fun idx =>
      input.shape.getD (attr.order.dimAt idx) 0
    NDType.changeShapeElemType input.order newShape (attr.outElemType input.elemType)
  else none

def transform (attr : TransposeAttr) (memory : Nat → UInt8) (input : Content) : Option Content := do
  let outType ← attr.inferOutputType input.type
  if sameRank : input.type.order.numDims = attr.order.numDims then
    memPermuteTransformation memory input outType (input.type.order.compose attr.order sameRank)
  else none

end TransposeAttr

/-- What a transposition makes: the dimensions are in the order of the permutation, and with them
the elements and the axis of a type that is quantized per axis. -/
structure Transposed (order : DimsOrder) (input output : Content) : Prop where
  dimsOrder : output.type.order = input.type.order
  shape : output.type.shape = (List.range input.type.shape.length).map fun idx =>
    input.type.shape.getD (order.dimAt idx) 0
  elements : ∀ coordinate origin, Inside output.type.shape coordinate →
    Inside input.type.shape origin →
    (∀ idx < input.type.shape.length, origin.getD (order.dimAt idx) 0 = coordinate.getD idx 0) →
    output.elementAt coordinate = input.elementAt origin
  axis : ∀ storage axis zeroPoints,
    input.type.elemType = .quantizedPerAxis storage axis zeroPoints →
    output.type.elemType = .quantizedPerAxis storage (order.dimPos axis) zeroPoints ∧
      output.type.shape.getD (order.dimPos axis) 0 = zeroPoints.length

/-! ### The type -/

section

variable {attr : TransposeAttr} {type outType : NDType} {values : List Nat}

theorem toMemoryOrder_compose {outer inner : DimsOrder} (sameRank : outer.numDims = inner.numDims) :
    (outer.compose inner sameRank).toMemoryOrder values =
      outer.toMemoryOrder (inner.toMemoryOrder values) := by
  show (outer.dims.map inner.dimAt).map _ = _
  rw [map_map]
  refine map_congr_left fun position mem => ?_
  have inside : position < inner.dims.length := by
    rw [show inner.dims.length = outer.dims.length from sameRank.symm, ← mem_range,
      ← outer.isPermutation.mem_iff]
    exact mem
  exact (getD_gather inside).symm

theorem map_dimAt (sameRank : attr.order.numDims = values.length) :
    ((List.range values.length).map fun idx => values.getD (attr.order.dimAt idx) 0) =
      attr.order.toMemoryOrder values := by
  rw [← sameRank]
  exact ext_getElem (by simp [DimsOrder.toMemoryOrder, DimsOrder.numDims])
    fun position _ inside => by
      have less : position < attr.order.dims.length := by
        simpa [DimsOrder.toMemoryOrder] using inside
      simp [DimsOrder.toMemoryOrder, gather, DimsOrder.dimAt, getD_eq_getElem?_getD, less]

theorem inferOutputType_eq_some (sameRank : attr.order.numDims = type.shape.length) :
    attr.inferOutputType type = some outType ↔
      (type.order = outType.order ∧ attr.order.toMemoryOrder type.shape = outType.shape ∧
        attr.outElemType type.elemType = outType.elemType) ∧
      validateQuantElemType (attr.order.toMemoryOrder type.shape) (attr.outElemType type.elemType) =
        true := by
  unfold TransposeAttr.inferOutputType
  rw [if_pos sameRank, map_dimAt sameRank]
  exact NDType.changeShapeElemType_eq_some

variable {order : DimsOrder} {dim position : Nat}

theorem DimsOrder.dimPos_less (inside : dim < order.numDims) :
    order.dimPos dim < order.numDims := by
  refine idxOf_lt_length_iff.mpr ?_
  rw [order.isPermutation.mem_iff, mem_range]
  exact inside

theorem DimsOrder.dimAt_dimPos (inside : dim < order.numDims) :
    order.dimAt (order.dimPos dim) = dim := by
  have less : order.dimPos dim < order.dims.length := DimsOrder.dimPos_less inside
  rw [DimsOrder.dimAt, getD_eq_getElem _ _ less]
  exact getElem_idxOf less

section

variable (inside : position < order.numDims)
include inside

theorem DimsOrder.dimPos_dimAt : order.dimPos (order.dimAt position) = position := by
  have nodup : order.dims.Nodup := order.isPermutation.nodup_iff.mpr nodup_range
  rw [DimsOrder.dimAt, getD_eq_getElem _ _ inside]
  exact nodup.idxOf_getElem position inside

theorem DimsOrder.dimAt_less : order.dimAt position < order.numDims := by
  rw [DimsOrder.dimAt, getD_eq_getElem _ _ inside, ← mem_range]
  exact order.isPermutation.mem_iff.mp (getElem_mem inside)

theorem DimsOrder.getD_toMemoryOrder :
    (order.toMemoryOrder values).getD position 0 = values.getD (order.dimAt position) 0 :=
  getD_gather inside

end

/-- The axis of a quantized type goes where the transposition moves it when it comes back in two
steps, and then the type is valid. -/
theorem validate_outElemType (sameRank : attr.order.numDims = type.shape.length)
    (valid : validateQuantElemType type.shape type.elemType = true)
    (returns : ∀ storage axis zeroPoints,
      type.elemType = .quantizedPerAxis storage axis zeroPoints →
        attr.order.dimAt (attr.order.dimAt axis) = axis) :
    validateQuantElemType (attr.order.toMemoryOrder type.shape) (attr.outElemType type.elemType) =
      true := by
  cases isType : type.elemType with
  | scalar => rfl
  | quantized => rfl
  | quantizedPerAxis storage axis zeroPoints =>
    rw [isType] at valid
    simp only [validateQuantElemType, and_eq_true, decide_eq_true_eq] at valid
    have inside : attr.order.dimAt axis < attr.order.numDims :=
      DimsOrder.dimAt_less (sameRank ▸ valid.1)
    simp only [TransposeAttr.outElemType, changeAxis, validateQuantElemType, and_eq_true,
      decide_eq_true_eq]
    refine ⟨inside.trans_eq (length_gather.symm), ?_⟩
    rw [DimsOrder.getD_toMemoryOrder inside, returns storage axis zeroPoints isType]
    exact valid.2

end

/-! ### The elements -/

section

variable {attr : TransposeAttr} {input output : Content} {outType : NDType} {memory : Nat → UInt8}
  (sameRank : input.type.order.numDims = attr.order.numDims)

include sameRank in
theorem order_perm_shape : attr.order.dims.Perm (List.range input.type.shape.length) := by
  rw [← input.type.matchesRank, sameRank]
  exact attr.order.isPermutation

include sameRank in
theorem elements_iff (isShape : attr.order.toMemoryOrder input.type.shape = output.type.shape) :
    (∀ coordinate origin, Inside output.type.shape coordinate → Inside input.type.shape origin →
      (∀ idx < input.type.shape.length,
        origin.getD (attr.order.dimAt idx) 0 = coordinate.getD idx 0) →
      output.elementAt coordinate = input.elementAt origin) ↔
    ∀ origin, Inside input.type.shape origin →
      output.elementAt (attr.order.toMemoryOrder origin) = input.elementAt origin := by
  have isRank : input.type.shape.length = attr.order.numDims :=
    input.type.matchesRank.symm.trans sameRank
  constructor
  · intro each origin inside
    refine each _ origin (isShape ▸ inside_gather (order_perm_shape sameRank) inside) inside
      fun idx less => ?_
    exact (DimsOrder.getD_toMemoryOrder (isRank ▸ less)).symm
  · intro each coordinate origin inside originInside samePositions
    have length : coordinate.length = attr.order.dims.length := by
      rw [(inside_iff_getD.mp inside).1, ← isShape]
      exact length_gather
    have isCoordinate : coordinate = attr.order.toMemoryOrder origin := by
      refine ext_getElem (by rw [length]; exact length_gather.symm) fun idx one two => ?_
      have less : idx < attr.order.numDims := one.trans_eq length
      have same := samePositions idx (isRank ▸ less)
      rw [← DimsOrder.getD_toMemoryOrder less, getD_eq_getElem?_getD,
        getD_eq_getElem?_getD, getElem?_eq_getElem one,
        getElem?_eq_getElem two] at same
      exact same.symm
    rw [isCoordinate]
    exact each origin originInside

theorem supported_eq_false (sameOrder : input.type.order = outType.order) :
    isOptimizedTransformationSupported input outType = false := by
  rw [← not_eq_true]
  intro supported
  rcases supported_layouts supported with (⟨first, second⟩ | ⟨first, second⟩) |
    ⟨first, second⟩ | ⟨first, second⟩ <;>
  · rw [← sameOrder, first] at second
    exact absurd second (by decide)

theorem transform_eq (inferred : attr.inferOutputType input.type = some outType) :
    attr.transform memory input =
      if input.isSplat = true ∨
          (input.type.order.compose attr.order sameRank).isIdentity = true then
        some (moveBuffer outType input)
      else memPermuteGeneric memory input outType
        (input.type.order.compose attr.order sameRank) := by
  have isRank : attr.order.numDims = input.type.shape.length :=
    sameRank.symm.trans input.type.matchesRank
  have sameOrder := ((inferOutputType_eq_some isRank).mp inferred).1.1
  have composedRank : input.type.order.numDims =
      (input.type.order.compose attr.order sameRank).numDims := (length_map _).symm
  unfold TransposeAttr.transform memPermuteTransformation
  rw [inferred, Option.bind_eq_bind, Option.bind_some, dif_pos sameRank, guard, guard,
    if_pos (congrArg DimsOrder.numDims sameOrder), if_pos composedRank]
  simp only [or_eq_true, supported_eq_false sameOrder]
  rfl

theorem number_input (dense : input.isSplat = false) {origin : List Nat}
    (inside : Inside input.type.shape origin) :
    input.number origin = dot (ovLikeStrides input.type) origin := by
  rw [Content.number, dense, if_neg Bool.false_ne_true]
  exact flatten_memShape inside

theorem number_output (dense : output.isSplat = false)
    (sameOrder : input.type.order = output.type.order)
    (isShape : attr.order.toMemoryOrder input.type.shape = output.type.shape) {origin : List Nat} :
    output.number (attr.order.toMemoryOrder origin) =
      flatten ((input.type.order.compose attr.order sameRank).toMemoryOrder input.type.shape)
        ((input.type.order.compose attr.order sameRank).toMemoryOrder origin) := by
  rw [Content.number, dense, if_neg Bool.false_ne_true, NDType.memShape, ← sameOrder, ← isShape,
    toMemoryOrder_compose, toMemoryOrder_compose]

/-- The dimensions with more than one position are in memory where they are logically. -/
def InPlace (type : NDType) : Prop :=
  ∀ dim < type.shape.length, 1 < type.shape.getD dim 0 → type.order.dimAt dim = dim

/-- What the dimensions in memory need to be for a transposition with some composed permutation -/
def MovesElements (input : Content) (composed : DimsOrder) : Prop :=
  if composed.isIdentity then input.type.numElements ≠ 0 →
    Agree input.type.shape (strides input.type.shape) (ovLikeStrides input.type)
  else input.storageElemType.size % 8 = 0 ∧ (input.type.numElements ≠ 0 → InPlace input.type)

theorem toMemoryOrder_identity {order : DimsOrder} (isIdentity : order.isIdentity = true)
    {values : List Nat} (length : values.length = order.numDims) :
    order.toMemoryOrder values = values := by
  have isRange : order.dims = range order.numDims := of_decide_eq_true isIdentity
  refine ext_getElem (length_gather.trans length.symm) fun axis _ inside => ?_
  simp only [DimsOrder.toMemoryOrder, gather, isRange, getElem_map, getElem_range,
    getD_eq_getElem _ _ inside]

theorem moved_iff (dense : input.isSplat = false)
    (isIdentity : (input.type.order.compose attr.order sameRank).isIdentity = true)
    (sameOrder : input.type.order = outType.order)
    (isShape : attr.order.toMemoryOrder input.type.shape = outType.shape) :
    (∀ data : List UInt8, data.length = input.dataSize → ∀ origin, Inside input.type.shape origin →
      (moveBuffer outType { input with data := data }).elementAt
          (attr.order.toMemoryOrder origin) =
        ({ input with data := data } : Content).elementAt origin) ↔
      (input.type.numElements ≠ 0 →
        Agree input.type.shape (strides input.type.shape) (ovLikeStrides input.type)) := by
  have composedRank : (input.type.order.compose attr.order sameRank).numDims =
      input.type.shape.length := (length_map _).trans input.type.matchesRank
  have number : ∀ origin, Inside input.type.shape origin →
      flatten ((input.type.order.compose attr.order sameRank).toMemoryOrder input.type.shape)
        ((input.type.order.compose attr.order sameRank).toMemoryOrder origin) =
          dot (strides input.type.shape) origin := fun origin inside => by
    rw [toMemoryOrder_identity isIdentity composedRank.symm, toMemoryOrder_identity isIdentity
      ((inside_iff_getD.mp inside).1.trans composedRank.symm)]
    rfl
  have elements : ∀ data origin, Inside input.type.shape origin →
      ((moveBuffer outType { input with data := data }).elementAt
          (attr.order.toMemoryOrder origin) =
        ({ input with data := data } : Content).elementAt origin ↔
      elementBits data input.storageElemType.size (dot (strides input.type.shape) origin) =
        elementBits data input.storageElemType.size (dot (ovLikeStrides input.type) origin)) := by
    intro data origin inside
    have isDense : (moveBuffer outType { input with data := data }).isSplat = false := dense
    rw [Content.elementAt, Content.elementAt, number_output sameRank isDense sameOrder isShape,
      number origin inside, number_input (show Content.isSplat { input with data := data } = false
        from dense) inside]
    rfl
  rw [forall_congr' fun data => forall_congr' fun _ => forall_congr' fun origin =>
    forall_congr' (elements data origin)]
  constructor
  · intro same nonempty
    refine (dot_eq_iff_agree nonempty length_strides (length_ovLikeStrides _)).mp
      fun origin inside => ?_
    refine eq_of_marked input.storageElemType.size_pos (origin_less inside)
      (same _ ?_ origin inside)
    rw [length_marked, Content.dataSize, dense, if_neg Bool.false_ne_true]
  · intro agree data _ origin inside
    have nonempty : input.type.numElements ≠ 0 := ne_zero_of_lt (origin_less inside)
    rw [(dot_eq_iff_agree nonempty length_strides (length_ovLikeStrides _)).mpr (agree nonempty)
      origin inside]

theorem toMemoryOrder_of_inPlace {type : NDType} (inPlace : InPlace type) {values : List Nat}
    (length : values.length = type.shape.length) (rest : Nat)
    (units : ∀ dim < type.shape.length, type.shape.getD dim 0 ≤ 1 → values.getD dim 0 = rest) :
    type.order.toMemoryOrder values = values := by
  have rank : type.order.numDims = type.shape.length := type.matchesRank
  refine ext_getElem (length_gather.trans (rank.trans length.symm)) fun dim first second => ?_
  have inside : dim < type.order.numDims := by rwa [rank, ← length]
  have same : (type.order.toMemoryOrder values).getD dim 0 = values.getD dim 0 := by
    rw [DimsOrder.getD_toMemoryOrder inside]
    rcases Nat.lt_or_ge 1 (type.shape.getD dim 0) with several | unit
    · rw [inPlace dim (rank ▸ inside) several]
    · rw [units dim (rank ▸ inside) unit]
      refine units _ (rank ▸ DimsOrder.dimAt_less inside) (not_lt.mp fun several => ?_)
      -- The dimension there would be in place as well, and then it is this one.
      have other := inPlace _ (rank ▸ DimsOrder.dimAt_less inside) several
      have equal := congrArg type.order.dimPos other
      rw [DimsOrder.dimPos_dimAt (DimsOrder.dimAt_less inside),
        DimsOrder.dimPos_dimAt inside] at equal
      rw [equal] at several
      exact Nat.not_le_of_lt several unit
  rwa [getD_eq_getElem?_getD, getD_eq_getElem?_getD, getElem?_eq_getElem first,
    getElem?_eq_getElem second] at same

theorem inPlace_of_toMemoryOrder {type : NDType} (nonempty : type.numElements ≠ 0)
    (stays : ∀ index, Inside type.shape index → type.order.toMemoryOrder index = index) :
    InPlace type := by
  intro dim less several
  have rank : type.order.numDims = type.shape.length := type.matchesRank
  let unit := (range type.shape.length).map fun axis => if axis = dim then 1 else 0
  have unitAt : ∀ axis < type.shape.length, unit.getD axis 0 = if axis = dim then 1 else 0 := by
    intro axis inside
    simp [unit, getD_eq_getElem?_getD, inside]
  have inside : Inside type.shape unit := by
    refine inside_iff_getD.mpr ⟨by simp [unit], fun axis axisLess => ?_⟩
    have zeros := (inside_iff_getD.mp (inside_zeros nonempty)).2 axis axisLess
    rw [unitAt axis axisLess]
    split
    · rename_i isDim
      rwa [isDim]
    · exact zero_lt_of_lt zeros
  have position : type.order.dimPos dim < type.shape.length :=
    rank ▸ DimsOrder.dimPos_less (rank ▸ less)
  have here : (type.order.toMemoryOrder unit).getD (type.order.dimPos dim) 0 = 1 := by
    rw [DimsOrder.getD_toMemoryOrder (rank ▸ position), DimsOrder.dimAt_dimPos (rank ▸ less),
      unitAt dim less, if_pos rfl]
  rw [stays unit inside, unitAt _ position] at here
  have isPosition : type.order.dimPos dim = dim := by
    by_contra isOther
    rw [if_neg isOther] at here
    exact zero_ne_one here
  have back := DimsOrder.dimAt_dimPos (rank ▸ less : dim < type.order.numDims)
  rwa [isPosition] at back

section

variable (sameOrder : input.type.order = outType.order)
  (isShape : attr.order.toMemoryOrder input.type.shape = outType.shape)

include sameRank isShape

theorem transposed_numElements : outType.numElements = input.type.numElements := by
  rw [NDType.numElements, ← isShape]
  exact prod_gather (order_perm_shape sameRank)

include sameOrder

theorem transposed_memShape : outType.memShape =
    (input.type.order.compose attr.order sameRank).toMemoryOrder input.type.shape := by
  rw [toMemoryOrder_compose, isShape, sameOrder]
  rfl

theorem generic_of_inPlace (dense : input.isSplat = false)
    (wholeBytes : input.storageElemType.size % 8 = 0) (length : input.data.length = input.dataSize)
    (inPlace : input.type.numElements ≠ 0 → InPlace input.type) :
    ∃ output, memPermuteGeneric memory input outType
        (input.type.order.compose attr.order sameRank) = some output ∧
      ∀ origin, Inside input.type.shape origin →
        output.elementAt (attr.order.toMemoryOrder origin) = input.elementAt origin := by
  have composedRank : (input.type.order.compose attr.order sameRank).numDims =
      input.type.order.numDims := length_map _
  have sameCount := transposed_numElements sameRank isShape
  rw [Content.dataSize, dense, if_neg Bool.false_ne_true, byteCount_eq wholeBytes] at length
  by_cases nonempty : input.type.numElements = 0
  · rw [memPermuteGeneric, permuteBuffer_eq dense wholeBytes sameCount length]
    dsimp only
    rw [genericAlgorithm, nonempty]
    exact ⟨_, rfl, fun origin inside => absurd nonempty (ne_zero_of_lt (origin_less inside))⟩
  · have stays : ∀ origin, Inside input.type.shape origin →
        input.type.order.toMemoryOrder origin = origin := fun origin inside =>
      toMemoryOrder_of_inPlace (inPlace nonempty) (inside_iff_getD.mp inside).1 0
        fun dim less unit => lt_one_iff.mp
          (((inside_iff_getD.mp inside).2 dim less).trans_le unit)
    have shapeStays : input.type.memShape = input.type.shape :=
      toMemoryOrder_of_inPlace (inPlace nonempty) rfl 1 fun dim less unit =>
        le_antisymm unit (zero_lt_of_lt ((inside_iff_getD.mp (inside_zeros nonempty)).2 dim less))
    have isPermuted : outType.memShape = applyPerm input.type.memShape
        (input.type.order.compose attr.order sameRank) := by
      rw [shapeStays]
      exact transposed_memShape sameRank sameOrder isShape
    have fits : Fits (input.storageElemType.size / 8) input.data ((range
        (input.type.numElements * (input.storageElemType.size / 8))).map memory)
        (boxCopies input.type.shape (permutedSteps input.type outType
          (input.type.order.compose attr.order sameRank)) (ovLikeStrides input.type)) :=
      fits_map (fun index mem => origin_less (mem_indices.mp mem)) (fun index mem =>
        place_less composedRank isPermuted (mem_indices.mp mem)) length (by simp)
    obtain ⟨after, copied⟩ := exists_copyElements fits
    rw [memPermuteGeneric_eq dense wholeBytes composedRank isPermuted length, permuted, copied]
    refine ⟨_, rfl, fun origin inside => ?_⟩
    have places := place_nodup composedRank isPermuted
    rw [Content.elementAt, Content.elementAt, number_output sameRank rfl sameOrder isShape,
      number_input dense inside]
    refine elementBits_of_bytes wholeBytes fun offset below => ?_
    have here := (copyElements_holds copied).copied (by rw [boxCopies, map_map]; exact places)
      (mem_map_of_mem (mem_indices.mpr inside)) below
    rw [← flatten_permuted composedRank isPermuted inside, stays origin inside,
      transposed_memShape sameRank sameOrder isShape] at here
    exact here

/-- Only with the dimensions in place does a marked element get where it belongs. -/
theorem inPlace_of_generic (dense : input.isSplat = false)
    (each : ∀ data : List UInt8, data.length = input.dataSize → ∃ output,
      memPermuteGeneric (fun _ => 0) { input with data := data } outType
          (input.type.order.compose attr.order sameRank) = some output ∧
        ∀ origin, Inside input.type.shape origin →
          output.elementAt (attr.order.toMemoryOrder origin) =
            ({ input with data := data } : Content).elementAt origin) :
    input.storageElemType.size % 8 = 0 ∧ (input.type.numElements ≠ 0 → InPlace input.type) := by
  have pos := input.storageElemType.size_pos
  have wholeBytes : input.storageElemType.size % 8 = 0 := by
    obtain ⟨output, res, -⟩ := each (replicate input.dataSize 0) length_replicate
    exact permuteBuffer_wholeBytes { input with data := replicate input.dataSize 0 } res
  refine ⟨wholeBytes, fun nonempty => inPlace_of_toMemoryOrder nonempty fun origin inside => ?_⟩
  have less := origin_less inside
  have sizeSplit : 8 * (input.storageElemType.size / 8) = input.storageElemType.size := by
    have split := div_add_mod input.storageElemType.size 8
    rwa [wholeBytes, add_zero] at split
  have bytePositive : 0 < input.storageElemType.size / 8 := by omega
  let data := marked input.storageElemType.size input.type.numElements
    (dot (ovLikeStrides input.type) origin)
  have length : data.length = input.dataSize := by
    rw [length_marked, Content.dataSize, dense, if_neg Bool.false_ne_true]
  have bytesLength : data.length = input.type.numElements * (input.storageElemType.size / 8) := by
    rw [length_marked, byteCount_eq wholeBytes]
  obtain ⟨output, res, elements⟩ := each data length
  rw [memPermuteGeneric, permuteBuffer_eq (show Content.isSplat { input with data := data } = false
    from dense) wholeBytes (transposed_numElements sameRank isShape) bytesLength] at res
  obtain ⟨after, copied, rfl⟩ := Option.map_eq_some_iff.mp res
  have fits := genericAlgorithm_inside copied
  rw [genericAlgorithm_inMemory fits] at copied
  have element := elements origin inside
  rw [Content.elementAt, Content.elementAt, number_output sameRank rfl sameOrder isShape,
    number_input (show Content.isSplat { input with data := data } = false from dense) inside]
    at element
  have isSet := head_of_marked pos less element
  have place : ∀ number, number * input.storageElemType.size / 8 =
      number * (input.storageElemType.size / 8) + 0 := by
    intro number
    rw [← sizeSplit, Nat.mul_left_comm, Nat.mul_div_cancel_left _ (by decide),
      Nat.mul_div_cancel_left _ (by decide), add_zero]
  rw [place] at isSet
  have aligned : ∀ number, number * input.storageElemType.size % 8 = 0 := by
    intro number
    rw [← sizeSplit, Nat.mul_left_comm, mul_mod_right]
  rcases (copyElements_holds copied).2 _ 0 bytePositive with ⟨first, isCopy, equal⟩ | ⟨-, equal⟩
  · obtain ⟨inMemIndND, mem, isPair⟩ := mem_map.mp isCopy
    obtain ⟨samePlace, isFirst⟩ := Prod.mk.inj isPair
    have memInside := mem_indices.mp mem
    have isMarked : first = dot (ovLikeStrides input.type) origin := by
      have firstSet : (data[first * input.storageElemType.size / 8]?.map fun byte =>
          byte.toNat.testBit (first * input.storageElemType.size % 8)) = some true := by
        rw [place, aligned]
        rw [equal, aligned] at isSet
        exact isSet
      exact marked_bit_eq_true pos firstSet
    have isMemory : inMemIndND = input.type.order.toMemoryOrder origin := by
      refine flatten_injective memInside (inside_gather input.type.order_perm inside) ?_
      rw [isFirst, isMarked, ← flatten_memShape inside]
    have outInside := fits inMemIndND memInside
    have composedPerm : (input.type.order.compose attr.order sameRank).dims.Perm
        (range input.type.shape.length) := by
      have isRank : (input.type.order.compose attr.order sameRank).dims.length =
          input.type.shape.length := (length_map _).trans input.type.matchesRank
      exact isRank ▸ (input.type.order.compose attr.order sameRank).isPermutation
    rw [isMemory, transposed_memShape sameRank sameOrder isShape] at samePlace outInside
    have samePositions := flatten_injective outInside (inside_gather composedPerm inside) samePlace
    refine gather_injective (input.type.order.compose attr.order sameRank).isPermutation ?_ ?_
      samePositions
    · exact length_gather.trans (length_map _).symm
    · rw [(inside_iff_getD.mp inside).1, order_length composedPerm]
  · rw [equal, getElem?_map] at isSet
    cases read : (range (input.type.numElements * (input.storageElemType.size / 8)))[
        flatten ((input.type.order.compose attr.order sameRank).toMemoryOrder input.type.shape)
          ((input.type.order.compose attr.order sameRank).toMemoryOrder origin) *
            (input.storageElemType.size / 8) + 0]? with
    | none =>
      rw [read] at isSet
      cases isSet
    | some byte =>
      rw [read, Option.map_some, Option.map_some, aligned] at isSet
      exact absurd isSet (by decide)

end

theorem generic_iff (dense : input.isSplat = false) (sameOrder : input.type.order = outType.order)
    (isShape : attr.order.toMemoryOrder input.type.shape = outType.shape) :
    (∀ data : List UInt8, data.length = input.dataSize → ∀ memory, ∃ output,
      memPermuteGeneric memory { input with data := data } outType
          (input.type.order.compose attr.order sameRank) = some output ∧
        ∀ origin, Inside input.type.shape origin →
          output.elementAt (attr.order.toMemoryOrder origin) =
            ({ input with data := data } : Content).elementAt origin) ↔
      input.storageElemType.size % 8 = 0 ∧ (input.type.numElements ≠ 0 → InPlace input.type) :=
  ⟨fun each => inPlace_of_generic sameRank sameOrder isShape dense fun data length =>
    each data length _, fun both data length memory =>
      @generic_of_inPlace attr { input with data := data } outType memory sameRank sameOrder isShape
        dense both.1 length both.2⟩

theorem type_of_memPermuteGeneric {memPerm : DimsOrder}
    (res : memPermuteGeneric memory input outType memPerm = some output) :
    output.type = outType := by
  unfold memPermuteGeneric permuteBuffer at res
  simp only [Option.bind_eq_bind, Option.bind_eq_some_iff, Option.some.injEq] at res
  obtain ⟨_, -, elemSize, -, data, -, rfl⟩ := res
  rfl

include sameRank in
theorem exists_inferred (res : attr.transform memory input = some output) :
    attr.inferOutputType input.type = some output.type := by
  have unfolded := res
  obtain ⟨outType, inferred, -⟩ := Option.bind_eq_some_iff.mp unfolded
  rw [transform_eq sameRank inferred] at res
  split at res
  · rw [← Option.some.inj res]
    exact inferred
  · rw [type_of_memPermuteGeneric res]
    exact inferred

include sameRank in
theorem transposed_iff (valid : validateQuantElemType input.type.shape input.type.elemType = true)
    (inferred : attr.inferOutputType input.type = some output.type) :
    Transposed attr.order input output ↔
      (∀ storage axis zeroPoints, input.type.elemType = .quantizedPerAxis storage axis zeroPoints →
        attr.order.dimAt (attr.order.dimAt axis) = axis) ∧
      ∀ origin, Inside input.type.shape origin →
        output.elementAt (attr.order.toMemoryOrder origin) = input.elementAt origin := by
  have isRank : attr.order.numDims = input.type.shape.length :=
    sameRank.symm.trans input.type.matchesRank
  obtain ⟨⟨sameOrder, isShape, isElemType⟩, outValid⟩ :=
    (inferOutputType_eq_some isRank).mp inferred
  rw [isShape, isElemType] at outValid
  constructor
  · intro transposed
    refine ⟨fun storage axis zeroPoints isType => ?_, (elements_iff sameRank isShape).mp
      transposed.elements⟩
    rw [isType] at valid isElemType
    have inside : axis < attr.order.numDims := by
      simp only [validateQuantElemType, and_eq_true, decide_eq_true_eq] at valid
      exact isRank ▸ valid.1
    have moved := (transposed.axis storage axis zeroPoints isType).1
    rw [← isElemType] at moved
    have isAxis : attr.order.dimAt axis = attr.order.dimPos axis := by injection moved
    rw [isAxis]
    exact DimsOrder.dimAt_dimPos inside
  · rintro ⟨returns, elements⟩
    refine ⟨sameOrder.symm, ?_, (elements_iff sameRank isShape).mpr elements,
      fun storage axis zeroPoints isType => ?_⟩
    · rw [map_dimAt isRank, isShape]
    · rw [isType] at valid isElemType
      have inside : axis < attr.order.numDims := by
        simp only [validateQuantElemType, and_eq_true, decide_eq_true_eq] at valid
        exact isRank ▸ valid.1
      have isAxis : attr.order.dimPos axis = attr.order.dimAt axis := by
        have back := DimsOrder.dimPos_dimAt (DimsOrder.dimAt_less inside)
        rwa [returns storage axis zeroPoints isType] at back
      rw [isAxis]
      refine ⟨isElemType.symm, ?_⟩
      rw [← isElemType] at outValid
      simp only [TransposeAttr.outElemType, changeAxis, validateQuantElemType, and_eq_true,
        decide_eq_true_eq] at outValid
      exact outValid.2.symm

/-- A transposition is right when the axis of a quantized type is swapped with another one or stays,
and the composed permutation moves the elements. -/
theorem transform_transposed_iff
    (valid : validateQuantElemType input.type.shape input.type.elemType = true) :
    (∀ data : List UInt8, data.length = input.dataSize → ∀ memory, ∃ output,
      attr.transform memory { input with data := data } = some output ∧
        Transposed attr.order { input with data := data } output) ↔
      (∀ storage axis zeroPoints, input.type.elemType = .quantizedPerAxis storage axis zeroPoints →
        attr.order.dimAt (attr.order.dimAt axis) = axis) ∧
      (input.isSplat = false →
        MovesElements input (input.type.order.compose attr.order sameRank)) := by
  have isRank : attr.order.numDims = input.type.shape.length :=
    sameRank.symm.trans input.type.matchesRank
  -- What is known of an output, when the type and the splat of the input stay
  have isInferred : ∀ data memory output,
      attr.transform memory { input with data := data } = some output →
        attr.inferOutputType input.type = some output.type := fun data memory output =>
    @exists_inferred attr { input with data := data } output memory sameRank
  have isTransposed : ∀ data output, attr.inferOutputType input.type = some output.type →
      (Transposed attr.order { input with data := data } output ↔ _ ∧ _) := fun data output =>
    @transposed_iff attr { input with data := data } output sameRank valid
  have transformed : ∀ data memory outType, attr.inferOutputType input.type = some outType →
      attr.transform memory { input with data := data } = _ := fun data memory outType =>
    @transform_eq attr { input with data := data } outType memory sameRank
  constructor
  · intro each
    obtain ⟨first, res, transposed⟩ := each (replicate input.dataSize 0)
      length_replicate fun _ => 0
    have inferred := isInferred _ _ _ res
    refine ⟨((isTransposed _ _ inferred).mp transposed).1, fun dense => ?_⟩
    obtain ⟨⟨sameOrder, isShape, -⟩, -⟩ := (inferOutputType_eq_some isRank).mp inferred
    have elements : ∀ data : List UInt8, data.length = input.dataSize → ∀ memory, ∃ output,
        attr.transform memory { input with data := data } = some output ∧
          ∀ origin, Inside input.type.shape origin →
            output.elementAt (attr.order.toMemoryOrder origin) =
              ({ input with data := data } : Content).elementAt origin := by
      intro data length memory
      obtain ⟨output, isOutput, whole⟩ := each data length memory
      exact ⟨output, isOutput, ((isTransposed _ _ (isInferred _ _ _ isOutput)).mp whole).2⟩
    unfold MovesElements
    cases isIdentity : (input.type.order.compose attr.order sameRank).isIdentity with
    | true =>
      refine (moved_iff sameRank dense isIdentity sameOrder isShape).mp fun data length => ?_
      obtain ⟨output, isOutput, isMoved⟩ := elements data length fun _ => 0
      rw [transformed _ _ _ inferred, if_pos (.inr isIdentity)] at isOutput
      rw [← Option.some.inj isOutput] at isMoved
      exact isMoved
    | false =>
      refine (generic_iff sameRank dense sameOrder isShape).mp fun data length memory => ?_
      obtain ⟨output, isOutput, isMoved⟩ := elements data length memory
      rw [transformed _ _ _ inferred, if_neg (by rw [dense, isIdentity]; decide)] at isOutput
      exact ⟨output, isOutput, isMoved⟩
  · rintro ⟨returns, moves⟩ data length memory
    have outValid := validate_outElemType isRank valid returns
    let outType : NDType := ⟨attr.order.toMemoryOrder input.type.shape, input.type.order,
      attr.outElemType input.type.elemType, sameRank.trans length_gather.symm⟩
    have inferred : attr.inferOutputType input.type = some outType :=
      (inferOutputType_eq_some isRank).mpr ⟨⟨rfl, rfl, rfl⟩, outValid⟩
    have sameOrder : input.type.order = outType.order := rfl
    have isShape : attr.order.toMemoryOrder input.type.shape = outType.shape := rfl
    have moved := isTransposed data (moveBuffer outType { input with data := data }) inferred
    rw [transformed data memory outType inferred]
    by_cases splat : input.isSplat = true
    · refine ⟨_, if_pos (.inl splat), moved.mpr ⟨returns, fun origin inside => ?_⟩⟩
      simp only [Content.elementAt, Content.number, moveBuffer, splat, if_true]
    · have dense := not_eq_true _ ▸ splat
      have movesElements := moves dense
      unfold MovesElements at movesElements
      by_cases isIdentity : (input.type.order.compose attr.order sameRank).isIdentity = true
      · rw [if_pos isIdentity] at movesElements
        exact ⟨_, if_pos (.inr isIdentity), moved.mpr ⟨returns,
          (moved_iff sameRank dense isIdentity sameOrder isShape).mpr movesElements data length⟩⟩
      · rw [if_neg isIdentity] at movesElements
        obtain ⟨output, res, elements⟩ :=
          (generic_iff sameRank dense sameOrder isShape).mpr movesElements data length memory
        rw [if_neg fun either => either.elim splat isIdentity]
        have isType := type_of_memPermuteGeneric res
        exact ⟨output, res, (isTransposed data output (isType ▸ inferred)).mpr ⟨returns, elements⟩⟩

end

def swapRows : TransposeAttr := ⟨.NCWH⟩

theorem twoChannels_transposed :
    ∃ output, swapRows.transform (fun _ => 0) twoChannels = some output ∧
      Transposed swapRows.order twoChannels output :=
  (@transform_transposed_iff swapRows twoChannels rfl rfl).mpr
    ⟨nofun, fun _ => ⟨by decide, fun _ => by unfold InPlace; decide⟩⟩ twoChannels.data (by decide)
      fun _ => 0

/-- The same bytes where the channels are last -/
def lastChannels : Content := { twoChannels with type := ⟨[1, 2, 2, 2], .NHWC, uint8, by decide⟩ }

/-- Each axis has two positions. -/
def perRow : Content where
  type := ⟨[2, 2, 2], ⟨[0, 1, 2], by decide⟩,
    .quantizedPerAxis (.integer .unsigned 8) 0 [0, 1], by decide⟩
  storageElemType := uint8
  isSplat := false
  data := [0, 1, 2, 3, 4, 5, 6, 7]

def rotateAxes : TransposeAttr := ⟨⟨[1, 2, 0], by decide⟩⟩

theorem lastChannels_perRow_not_transposed :
    (∃ output, swapRows.transform (fun _ => 0) lastChannels = some output ∧
      ¬ Transposed swapRows.order lastChannels output) ∧
    ∃ output, rotateAxes.transform (fun _ => 0) perRow = some output ∧
      ¬ Transposed rotateAxes.order perRow output := by
  refine ⟨⟨⟨lastChannels.type, uint8, false, [0, 4, 2, 6, 1, 5, 3, 7]⟩, ?_, fun transposed => ?_⟩,
    ⟨⟨⟨[2, 2, 2], ⟨[0, 1, 2], by decide⟩, .quantizedPerAxis (.integer .unsigned 8) 1 [0, 1],
      by decide⟩, uint8, false, [0, 4, 1, 5, 2, 6, 3, 7]⟩, ?_, fun transposed => ?_⟩⟩
  · rfl
  · -- The rows and the columns of this element are the same.
    have element := transposed.elements [0, 1, 0, 0] [0, 1, 0, 0]
      ⟨by decide, by decide, by decide, by decide, trivial⟩
      ⟨by decide, by decide, by decide, by decide, trivial⟩ (by decide)
    exact absurd element (by decide)
  · rfl
  · have axis := (transposed.axis _ 0 [0, 1] rfl).1
    exact absurd axis (by decide)

end NpuPlugin.ConstTransformations
