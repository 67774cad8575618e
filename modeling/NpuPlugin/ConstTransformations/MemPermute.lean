/-
This file models the permutation of a constant in memory, the copy loops that replace it between
some pairs of layouts, and the transformations `Reorder` and `MemPermute` that use it. A buffer that
was just allocated holds any bytes.
-/

import NpuPlugin.Library.Copies
import NpuPlugin.ConstTransformations.Content

namespace NpuPlugin.ConstTransformations

open Bool Copies Function List MixedRadix Nat

/-! ### The buffers -/

variable (memory : Nat → UInt8) (input : Content) (outType : NDType)

def allocTempBuffer (type : NDType) (storageElemType : ElemType) (isSplat : Bool) : Content where
  type := type
  storageElemType := storageElemType
  isSplat := isSplat
  data :=
    let tempBufSize := if isSplat then 1 else type.numElements
    (List.range ((storageElemType.size * tempBufSize + 7) / 8)).map memory

def moveBuffer (type : NDType) (other : Content) : Content := { other with type := type }

def ElemType.byteSize (type : ElemType) : Option Nat :=
  if type.size % 8 = 0 then some (type.size / 8) else none

/-! ### The copy loops -/

/-- `OvLike4DStrides` and `OvLike5DStrides`: the distances of neighbours on each dimension, in
elements -/
def ovLikeStrides (type : NDType) : List Nat := type.order.toLogicalOrder type.memStrides

/-- The copies of one plane: both loops move the pointer to the target, and the pointer to the
source starts again in each row. -/
def copyPlane (height width dstStep srcRowStep srcStep dstPtr srcPtr : Nat) : List (Nat × Nat) :=
  ((List.range height).foldl (fun (dst, copies) h =>
    let (dst, _, copies) := (List.range width).foldl (fun (dst, src, copies) _ =>
      (dst + dstStep, src + srcStep, copies ++ [(dst, src)])) (dst, srcPtr + h * srcRowStep, copies)
    (dst, copies)) (dstPtr, [])).2

def blobCopy4D (input output : NDType) : List (Nat × Nat) :=
  let shape := input.shape
  let inputStrides := ovLikeStrides input
  let outputStrides := ovLikeStrides output
  (List.range (shape.getD 0 0)).flatMap fun n => (List.range (shape.getD 1 0)).flatMap fun c =>
    let srcPtr := n * inputStrides.getD 0 0 + c * inputStrides.getD 1 0
    if input.order = .NHWC then
      copyPlane (shape.getD 2 0) (shape.getD 3 0) 1 (inputStrides.getD 2 0) (inputStrides.getD 3 0)
        (n * outputStrides.getD 0 0 + c * outputStrides.getD 1 0) srcPtr
    else
      copyPlane (shape.getD 2 0) (shape.getD 3 0) (outputStrides.getD 3 0) (inputStrides.getD 2 0) 1
        (n * outputStrides.getD 0 0 + c) srcPtr

def blobCopy5D (input output : NDType) : List (Nat × Nat) :=
  let shape := input.shape
  let inputStrides := ovLikeStrides input
  let outputStrides := ovLikeStrides output
  (List.range (shape.getD 0 0)).flatMap fun n => (List.range (shape.getD 1 0)).flatMap fun c =>
    (List.range (shape.getD 2 0)).flatMap fun d =>
      let srcPtr := n * inputStrides.getD 0 0 + c * inputStrides.getD 1 0 +
        d * inputStrides.getD 2 0
      if input.order = .NDHWC then
        copyPlane (shape.getD 3 0) (shape.getD 4 0) 1 (inputStrides.getD 3 0)
          (inputStrides.getD 4 0)
          (n * outputStrides.getD 0 0 + c * outputStrides.getD 1 0 + d * outputStrides.getD 2 0)
          srcPtr
      else
        copyPlane (shape.getD 3 0) (shape.getD 4 0) (outputStrides.getD 4 0)
          (inputStrides.getD 3 0) 1
          (n * outputStrides.getD 0 0 + c + d * outputStrides.getD 2 0) srcPtr

def isOptimizedTransformationSupported : Bool :=
  let between (order1 order2 : DimsOrder) : Bool :=
    (input.type.order = order1 && outType.order = order2) ||
      (input.type.order = order2 && outType.order = order1)
  [1, 2, 4].contains (input.storageElemType.size / 8) &&
    (between .NHWC .NCHW || between .NCDHW .NDHWC)

def memPermuteTransformationOptimized (elemSize : Nat) (input output : Content) :
    Option (List UInt8) :=
  if input.type.shape.length = 4 then
    copyElements elemSize input.data (blobCopy4D input.type output.type) output.data
  else if input.type.shape.length = 5 then
    copyElements elemSize input.data (blobCopy5D input.type output.type) output.data
  else none

/-! ### The permutation -/

/-- The loop over the elements, which throws when an index is outside of its shape or its buffer -/
def genericAlgorithm (elemSize : Nat) (input output : Content) (permOrder : DimsOrder) :
    Option (List UInt8) :=
  (List.range input.type.numElements).foldlM (fun buffer inMemInd1D => do
    let inMemIndND := getMemIndexND inMemInd1D input.type.memShape
    let outMemIndND := permOrder.toMemoryOrder inMemIndND
    let outMemInd1D ← getMemIndex1D outMemIndND output.type.memShape
    copyBytes input.data (inMemInd1D * elemSize) elemSize buffer (outMemInd1D * elemSize))
    output.data

/-- What the copy is made with, once it is known that one is needed. -/
def permuteBuffer (copy : Nat → Content → Option (List UInt8)) : Option Content := do
  let output := allocTempBuffer memory outType input.storageElemType input.isSplat
  guard (output.data.length = input.data.length)
  let elemSize ← input.storageElemType.byteSize
  let data ← copy elemSize output
  some { output with data := data }

def memPermuteTransformation (memPerm : DimsOrder) : Option Content := do
  guard (input.type.order.numDims = outType.order.numDims)
  guard (input.type.order.numDims = memPerm.numDims)
  if input.isSplat || memPerm.isIdentity then some (moveBuffer outType input)
  else
    permuteBuffer memory input outType fun elemSize output =>
      if isOptimizedTransformationSupported input outType then
        memPermuteTransformationOptimized elemSize input output
      else genericAlgorithm elemSize input output memPerm

/-- The same with the algorithm by indices in any case -/
def memPermuteGeneric (memPerm : DimsOrder) : Option Content :=
  permuteBuffer memory input outType fun elemSize output =>
    genericAlgorithm elemSize input output memPerm

/-! ### The transformations -/

structure MemPermuteAttr where
  dstOrder : DimsOrder
  memPerm : DimsOrder

def MemPermuteAttr.inferOutputType (attr : MemPermuteAttr) (input : NDType) : Option NDType :=
  if attr.dstOrder.numDims = input.shape.length ∧ input.shape.length = attr.memPerm.numDims then
    let outMemShape := applyPerm input.memShape attr.memPerm
    let elemType := match input.elemType with
      | .quantizedPerAxis _ origAxis _ =>
        let inMemAxis := input.order.dimPos origAxis
        let outMemAxis := attr.memPerm.dimPos inMemAxis
        changeAxis (attr.dstOrder.dimAt outMemAxis) input.elemType
      | type => type
    NDType.changeShapeElemType attr.dstOrder (attr.dstOrder.toLogicalOrder outMemShape) elemType
  else none

def MemPermuteAttr.transform (attr : MemPermuteAttr) (memory : Nat → UInt8) (input : Content) :
    Option Content := do
  let outType ← attr.inferOutputType input.type
  memPermuteTransformation memory input outType attr.memPerm

/-- Both orders have the same dimensions. -/
def computeOrder (inOrder outOrder : DimsOrder) (sameRank : inOrder.numDims = outOrder.numDims) :
    DimsOrder where
  dims := outOrder.dims.map inOrder.dimPos
  isPermutation := by
    have nodup : inOrder.dims.Nodup := inOrder.isPermutation.nodup_iff.mpr nodup_range
    have own : inOrder.dims.map inOrder.dimPos = List.range inOrder.dims.length :=
      ext_getElem (by simp) fun position _ _ => by simp [DimsOrder.dimPos, nodup.idxOf_getElem]
    have same : outOrder.dims.Perm inOrder.dims := by
      refine outOrder.isPermutation.trans (inOrder.isPermutation.trans ?_).symm
      rw [show inOrder.dims.length = outOrder.dims.length from sameRank]
    rw [length_map, same.length_eq, ← own]
    exact same.map _

structure ReorderAttr where
  order : DimsOrder

def ReorderAttr.inferOutputType (attr : ReorderAttr) (input : NDType) : Option NDType :=
  if sameRank : attr.order.numDims = input.shape.length then
    some ⟨input.shape, attr.order, input.elemType, sameRank⟩
  else none

def ReorderAttr.transform (attr : ReorderAttr) (memory : Nat → UInt8) (input : Content) :
    Option Content := do
  let outType ← attr.inferOutputType input.type
  if sameRank : input.type.order.numDims = outType.order.numDims then
    memPermuteTransformation memory input outType
      (computeOrder input.type.order outType.order sameRank)
  else none

/-! ### What is copied -/

/-- The copies of a loop over a box, where both pointers move by their own steps. -/
def boxCopies (shape dstSteps srcSteps : List Nat) : List (Nat × Nat) :=
  (indices shape).map fun index => (dot dstSteps index, dot srcSteps index)

variable {input output : NDType} (height width dstStep srcRowStep srcStep dstPtr srcPtr : Nat)

theorem copyPlane_eq :
    copyPlane height width dstStep srcRowStep srcStep dstPtr srcPtr =
      (List.range height).flatMap fun h => (List.range width).map fun w =>
        (dstPtr + (h * width + w) * dstStep, srcPtr + h * srcRowStep + w * srcStep) := by
  have row : ∀ dst src copies, (range width).foldl (fun (dst, src, copies) _ =>
      (dst + dstStep, src + srcStep, copies ++ [(dst, src)])) (dst, src, copies) =
        (dst + width * dstStep, src + width * srcStep, copies ++
          (range width).map fun w => (dst + w * dstStep, src + w * srcStep)) := by
    intro dst src copies
    induction width with
    | zero => simp
    | succ width ih =>
      rw [range_succ, foldl_append, ih]
      simp [succ_mul, add_assoc]
  have plane : (range height).foldl (fun (dst, copies) h =>
      let (dst, _, copies) := (range width).foldl (fun (dst, src, copies) _ =>
        (dst + dstStep, src + srcStep, copies ++ [(dst, src)]))
          (dst, srcPtr + h * srcRowStep, copies)
      (dst, copies)) (dstPtr, ([] : List (Nat × Nat))) =
        (dstPtr + height * width * dstStep, (range height).flatMap fun h =>
          (range width).map fun w =>
            (dstPtr + (h * width + w) * dstStep, srcPtr + h * srcRowStep + w * srcStep)) := by
    induction height with
    | zero => simp
    | succ height ih =>
      rw [range_succ, foldl_append, ih, foldl_cons, foldl_nil]
      dsimp only
      rw [row, flatMap_append, flatMap_singleton]
      refine Prod.ext ?_ (congrArg (_ ++ ·) (map_congr_left fun w _ => ?_))
      · show dstPtr + height * width * dstStep + width * dstStep = _
        ring
      · refine Prod.ext ?_ rfl
        ring
  unfold copyPlane
  rw [plane]

theorem boxCopies_cons {extent dstStep srcStep : Nat} {shape dstSteps srcSteps : List Nat} :
    boxCopies (extent :: shape) (dstStep :: dstSteps) (srcStep :: srcSteps) =
      (List.range extent).flatMap fun position => (boxCopies shape dstSteps srcSteps).map
        fun copy => (position * dstStep + copy.1, position * srcStep + copy.2) := by
  simp [boxCopies, indices, map_flatMap, map_map, comp_def, dot]

theorem copyPlane_eq_box :
    copyPlane height width dstStep srcRowStep srcStep dstPtr srcPtr =
      (boxCopies [height, width] [width * dstStep, dstStep] [srcRowStep, srcStep]).map
        fun copy => (dstPtr + copy.1, srcPtr + copy.2) := by
  rw [copyPlane_eq, boxCopies_cons, map_flatMap]
  refine flatMap_congr fun h _ => ?_
  rw [boxCopies_cons, map_flatMap, map_flatMap, map_eq_flatMap]
  refine flatMap_congr fun w _ => ?_
  refine congrArg (fun copy => [copy]) (Prod.ext ?_ ?_)
  · show dstPtr + (h * width + w) * dstStep = dstPtr + (h * (width * dstStep) + (w * dstStep + 0))
    ring
  · show srcPtr + h * srcRowStep + w * srcStep = srcPtr + (h * srcRowStep + (w * srcStep + 0))
    ring

/-- What the pointer to the target moves by on each dimension in the copy loops -/
def optimizedSteps (input output : NDType) : List Nat :=
  let outputStrides := ovLikeStrides output
  let width := input.shape.getD (input.shape.length - 1) 0
  let outputWidth := outputStrides.getD (input.shape.length - 1) 0
  if input.order = .NHWC then [outputStrides.getD 0 0, outputStrides.getD 1 0, width, 1]
  else if input.order = .NDHWC then
    [outputStrides.getD 0 0, outputStrides.getD 1 0, outputStrides.getD 2 0, width, 1]
  else if input.shape.length = 4 then [outputStrides.getD 0 0, 1, width * outputWidth, outputWidth]
  else [outputStrides.getD 0 0, 1, outputStrides.getD 2 0, width * outputWidth, outputWidth]

theorem blobCopy4D_eq (layout : input.order = .NCHW ∨ input.order = .NHWC) :
    blobCopy4D input output =
      boxCopies input.shape (optimizedSteps input output) (ovLikeStrides input) := by
  obtain ⟨shape, order, elemType, sameRank⟩ := input
  have rank : shape.length = 4 := by rcases layout with rfl | rfl <;> exact sameRank.symm
  match shape, rank with
  | [batch, channels, height, width], _ =>
    rcases layout with rfl | rfl
    · obtain ⟨first, second, third, isStrides⟩ : ∃ first second third,
          ovLikeStrides ⟨[batch, channels, height, width], .NCHW, elemType, sameRank⟩ =
            [first, second, third, 1] := ⟨_, _, _, rfl⟩
      have notLast : DimsOrder.NCHW ≠ .NHWC := by decide
      have notLast5D : DimsOrder.NCHW ≠ .NDHWC := by decide
      simp [blobCopy4D, optimizedSteps, copyPlane_eq_box, isStrides, notLast, notLast5D,
        boxCopies_cons, map_flatMap, comp_def, add_assoc]
    · obtain ⟨first, second, third, fourth, isStrides⟩ : ∃ first second third fourth,
          ovLikeStrides ⟨[batch, channels, height, width], .NHWC, elemType, sameRank⟩ =
            [first, second, third, fourth] := ⟨_, _, _, _, rfl⟩
      simp [blobCopy4D, optimizedSteps, copyPlane_eq_box, isStrides,
        boxCopies_cons, map_flatMap, comp_def, add_assoc]

theorem blobCopy5D_eq (layout : input.order = .NCDHW ∨ input.order = .NDHWC) :
    blobCopy5D input output =
      boxCopies input.shape (optimizedSteps input output) (ovLikeStrides input) := by
  obtain ⟨shape, order, elemType, sameRank⟩ := input
  have rank : shape.length = 5 := by rcases layout with rfl | rfl <;> exact sameRank.symm
  match shape, rank with
  | [batch, channels, depth, height, width], _ =>
    rcases layout with rfl | rfl
    · obtain ⟨first, second, third, fourth, isStrides⟩ : ∃ first second third fourth,
          ovLikeStrides ⟨[batch, channels, depth, height, width], .NCDHW, elemType, sameRank⟩ =
            [first, second, third, fourth, 1] := ⟨_, _, _, _, rfl⟩
      have notLast : DimsOrder.NCDHW ≠ .NHWC := by decide
      have notLast5D : DimsOrder.NCDHW ≠ .NDHWC := by decide
      simp [blobCopy5D, optimizedSteps, copyPlane_eq_box, isStrides, notLast, notLast5D,
        boxCopies_cons, map_flatMap, comp_def, add_assoc]
    · obtain ⟨first, second, third, fourth, fifth, isStrides⟩ : ∃ first second third fourth fifth,
          ovLikeStrides ⟨[batch, channels, depth, height, width], .NDHWC, elemType, sameRank⟩ =
            [first, second, third, fourth, fifth] := ⟨_, _, _, _, _, rfl⟩
      have notLast : DimsOrder.NDHWC ≠ .NHWC := by decide
      simp [blobCopy5D, optimizedSteps, copyPlane_eq_box, isStrides, notLast,
        boxCopies_cons, map_flatMap, comp_def, add_assoc]

/-! ### The algorithm by indices -/

/-- What an element moves by in the target for each dimension, when the memory permutation puts it
there -/
def permutedSteps (input output : NDType) (permOrder : DimsOrder) : List Nat :=
  input.order.toLogicalOrder (permOrder.toLogicalOrder output.memStrides)

section

variable {input output : NDType} {permOrder : DimsOrder}

theorem NDType.order_perm (type : NDType) :
    type.order.dims.Perm (List.range type.shape.length) := by
  rw [← type.matchesRank]
  exact type.order.isPermutation

theorem NDType.length_memShape (type : NDType) : type.memShape.length = type.shape.length := by
  rw [← type.matchesRank]
  exact length_gather

theorem length_ovLikeStrides (type : NDType) : (ovLikeStrides type).length = type.shape.length := by
  rw [← type.matchesRank]
  simp [ovLikeStrides, DimsOrder.toLogicalOrder, DimsOrder.numDims]

theorem length_permutedSteps :
    (permutedSteps input output permOrder).length = input.shape.length := by
  rw [← input.matchesRank]
  simp [permutedSteps, DimsOrder.toLogicalOrder, DimsOrder.numDims]

variable (sameRank : permOrder.numDims = input.order.numDims)
  (isPermuted : output.memShape = applyPerm input.memShape permOrder)

include sameRank in
theorem permOrder_perm : permOrder.dims.Perm (List.range input.memShape.length) := by
  rw [input.length_memShape, ← input.matchesRank, ← sameRank]
  exact permOrder.isPermutation

theorem flatten_memShape {index : List Nat} (inside : Inside input.shape index) :
    flatten input.memShape (input.order.toMemoryOrder index) = dot (ovLikeStrides input) index :=
  dot_gather input.order_perm (by rw [length_strides, input.length_memShape])
    (inside_iff_getD.mp inside).1

include sameRank isPermuted in
theorem flatten_permuted {index : List Nat} (inside : Inside input.shape index) :
    flatten output.memShape (permOrder.toMemoryOrder (input.order.toMemoryOrder index)) =
      dot (permutedSteps input output permOrder) index := by
  have isOrder := permOrder_perm sameRank
  have length : output.memStrides.length = input.shape.length := by
    rw [NDType.memStrides, length_strides, isPermuted, applyPerm, length_gather,
      order_length isOrder, input.length_memShape]
  have indexLength := (inside_iff_getD.mp inside).1
  have first : dot output.memStrides (gather permOrder.dims (gather input.order.dims index)) =
      dot (gather (positions permOrder.dims) output.memStrides) (gather input.order.dims index) :=
    dot_gather isOrder (length.trans input.length_memShape.symm)
      (by rw [length_gather, input.length_memShape]; exact input.matchesRank)
  refine first.trans (dot_gather input.order_perm ?_ indexLength)
  rw [length_gather, length_positions, order_length isOrder, input.length_memShape]

include sameRank isPermuted in
theorem numElements_eq : output.numElements = input.numElements := by
  unfold NDType.numElements
  rw [← prod_gather output.order_perm, ← prod_gather input.order_perm]
  show output.memShape.prod = input.memShape.prod
  rw [isPermuted]
  exact prod_gather (permOrder_perm sameRank)

theorem origin_less {index : List Nat} (inside : Inside input.shape index) :
    dot (ovLikeStrides input) index < input.numElements := by
  rw [← flatten_memShape inside]
  refine lt_of_lt_of_eq (flatten_lt (inside_gather input.order_perm inside)) ?_
  exact prod_gather input.order_perm

theorem exists_origin {number : Nat} (less : number < input.numElements) :
    ∃ index, Inside input.shape index ∧ dot (ovLikeStrides input) index = number := by
  have memLess : number < input.memShape.prod := less.trans_eq (prod_gather input.order_perm).symm
  obtain ⟨memIndex, memInside, isNumber⟩ := exists_flatten memLess
  have mem := (indices_gather_perm input.order_perm).mem_iff.mp (mem_indices.mpr memInside)
  obtain ⟨index, inside, rfl⟩ := mem_map.mp mem
  have isInside := mem_indices.mp inside
  exact ⟨index, isInside, (flatten_memShape isInside).symm.trans isNumber⟩

include sameRank isPermuted in
theorem place_less {index : List Nat} (inside : Inside input.shape index) :
    dot (permutedSteps input output permOrder) index < input.numElements := by
  rw [← flatten_permuted sameRank isPermuted inside, isPermuted]
  refine lt_of_lt_of_eq (flatten_lt (inside_gather (permOrder_perm sameRank)
    (inside_gather input.order_perm inside))) ?_
  exact (prod_gather (permOrder_perm sameRank)).trans (prod_gather input.order_perm)

theorem toMemoryOrder_injective {one other : List Nat} (oneInside : Inside input.shape one)
    (otherInside : Inside input.shape other)
    (same : input.order.toMemoryOrder one = input.order.toMemoryOrder other) : one = other := by
  exact gather_injective input.order.isPermutation
    ((inside_iff_getD.mp oneInside).1.trans input.matchesRank.symm)
    ((inside_iff_getD.mp otherInside).1.trans input.matchesRank.symm) same

theorem origin_nodup :
    ((indices input.shape).map fun index => dot (ovLikeStrides input) index).Nodup := by
  refine (nodup_map_iff_inj_on (nodup_indices _)).mpr fun one isOne other isOther same => ?_
  rw [mem_indices] at isOne isOther
  rw [← flatten_memShape isOne, ← flatten_memShape isOther] at same
  exact toMemoryOrder_injective isOne isOther (flatten_injective
    (inside_gather input.order_perm isOne) (inside_gather input.order_perm isOther) same)

include sameRank isPermuted in
theorem place_nodup :
    ((indices input.shape).map fun index =>
      dot (permutedSteps input output permOrder) index).Nodup := by
  refine (nodup_map_iff_inj_on (nodup_indices _)).mpr fun one isOne other isOther same => ?_
  rw [mem_indices] at isOne isOther
  rw [← flatten_permuted sameRank isPermuted isOne, ← flatten_permuted sameRank isPermuted isOther,
    isPermuted] at same
  have oneInside := inside_gather input.order_perm isOne
  have otherInside := inside_gather input.order_perm isOther
  have isOrder := permOrder_perm sameRank
  refine toMemoryOrder_injective isOne isOther (gather_injective permOrder.isPermutation
    ?_ ?_ (flatten_injective (inside_gather isOrder oneInside) (inside_gather isOrder otherInside)
      same))
  · exact length_gather.trans sameRank.symm
  · exact length_gather.trans sameRank.symm

end

/-! ### The two algorithms -/

variable {input output : Content} {permOrder : DimsOrder} {elemSize : Nat}

theorem genericAlgorithm_inMemory (fits : ∀ inMemIndND, Inside input.type.memShape inMemIndND →
      Inside output.type.memShape (permOrder.toMemoryOrder inMemIndND)) :
    genericAlgorithm elemSize input output permOrder =
      copyElements elemSize input.data ((indices input.type.memShape).map fun inMemIndND =>
        (flatten output.type.memShape (permOrder.toMemoryOrder inMemIndND),
          flatten input.type.memShape inMemIndND)) output.data := by
  have isElements : input.type.numElements = input.type.memShape.prod :=
    (prod_gather input.type.order_perm).symm
  unfold genericAlgorithm copyElements
  rw [isElements, ← map_flatten_indices, foldlM_map, foldlM_map]
  refine Attempt.foldlM_congr _ (fun inMemIndND mem buffer => ?_) _
  have inside := mem_indices.mp mem
  dsimp only
  rw [getMemIndexND_flatten inside, getMemIndex1D_eq (fits inMemIndND inside)]
  rfl

theorem genericAlgorithm_inside {after : List UInt8}
    (res : genericAlgorithm elemSize input output permOrder = some after) (inMemIndND : List Nat)
    (inside : Inside input.type.memShape inMemIndND) :
    Inside output.type.memShape (permOrder.toMemoryOrder inMemIndND) := by
  by_contra outside
  have isElement : flatten input.type.memShape inMemIndND ∈ range input.type.numElements :=
    mem_range.mpr ((flatten_lt inside).trans_eq (prod_gather input.type.order_perm))
  have failed : genericAlgorithm elemSize input output permOrder = none :=
    Attempt.foldlM_eq_none isElement (fun buffer => by
      dsimp only
      rw [getMemIndexND_flatten inside, getMemIndex1D_eq_none outside]
      rfl) output.data
  exact Option.some_ne_none after (res.symm.trans failed)

section

variable (sameRank : permOrder.numDims = input.type.order.numDims)
  (isPermuted : output.type.memShape = applyPerm input.type.memShape permOrder)
  (inputLength : input.data.length = input.type.numElements * elemSize)
  (outputLength : output.data.length = input.type.numElements * elemSize)
include sameRank isPermuted inputLength outputLength

theorem genericAlgorithm_eq :
    genericAlgorithm elemSize input output permOrder =
      copyElements elemSize input.data (boxCopies input.type.shape (permutedSteps input.type
        output.type permOrder) (ovLikeStrides input.type)) output.data := by
  have fits : ∀ inMemIndND, Inside input.type.memShape inMemIndND →
      Inside output.type.memShape (permOrder.toMemoryOrder inMemIndND) := fun inMemIndND inside =>
    isPermuted ▸ inside_gather (permOrder_perm sameRank) inside
  have isBox : ((indices input.type.shape).map (gather input.type.order.dims)).map
      (fun inMemIndND => (flatten output.type.memShape (permOrder.toMemoryOrder inMemIndND),
        flatten input.type.memShape inMemIndND)) =
      boxCopies input.type.shape (permutedSteps input.type output.type permOrder)
        (ovLikeStrides input.type) := by
    rw [map_map]
    exact map_congr_left fun index mem => Prod.ext
      (flatten_permuted sameRank isPermuted (mem_indices.mp mem))
      (flatten_memShape (mem_indices.mp mem))
  have reordered := (indices_gather_perm input.type.order_perm).map fun inMemIndND =>
    (flatten output.type.memShape (permOrder.toMemoryOrder inMemIndND),
      flatten input.type.memShape inMemIndND)
  rw [isBox] at reordered
  rw [genericAlgorithm_inMemory fits]
  refine (copyElements_perm reordered.symm ?_ (fits_map (fun index mem =>
    origin_less (mem_indices.mp mem)) (fun index mem =>
      place_less sameRank isPermuted (mem_indices.mp mem)) inputLength outputLength)
    outputLength).symm
  rw [boxCopies, map_map]
  exact place_nodup sameRank isPermuted

theorem genericAlgorithm_identity (isIdentity : permOrder.isIdentity = true) :
    genericAlgorithm elemSize input output permOrder = some input.data := by
  have isRange : permOrder.dims = range input.type.memShape.length := by
    rw [input.type.length_memShape, ← input.type.matchesRank, ← sameRank]
    exact of_decide_eq_true isIdentity
  have unmoved : ∀ values : List Nat, values.length = input.type.memShape.length →
      gather permOrder.dims values = values := fun values length => by
    refine ext_getElem (by simp [isRange, length]) fun axis _ inside => ?_
    simp [gather, isRange, getD_eq_getElem?_getD, inside]
  have stays : ∀ index, Inside input.type.shape index →
      dot (permutedSteps input.type output.type permOrder) index =
        dot (ovLikeStrides input.type) index := by
    intro index inside
    have memLength : (input.type.order.toMemoryOrder index).length =
        input.type.memShape.length := by
      rw [NDType.memShape, DimsOrder.toMemoryOrder, DimsOrder.toMemoryOrder, length_gather,
        length_gather]
    rw [← flatten_permuted sameRank isPermuted inside, ← flatten_memShape inside, isPermuted,
      DimsOrder.toMemoryOrder, unmoved _ memLength, applyPerm, unmoved _ rfl]
  have places := place_nodup sameRank isPermuted
  rw [genericAlgorithm_eq sameRank isPermuted inputLength outputLength]
  have fits : Fits elemSize input.data output.data (boxCopies input.type.shape (permutedSteps
      input.type output.type permOrder) (ovLikeStrides input.type)) :=
    fits_map (fun index mem => origin_less (mem_indices.mp mem)) (fun index mem =>
      place_less sameRank isPermuted (mem_indices.mp mem)) inputLength outputLength
  obtain ⟨after, copied⟩ := exists_copyElements fits
  have holds := copyElements_holds copied
  refine copied.trans (congrArg some (eq_of_elements (holds.1.trans outputLength) inputLength
    fun place less offset below => ?_))
  obtain ⟨index, inside, rfl⟩ := exists_origin less
  have mem := mem_indices.mpr inside
  have here := holds.copied (by rw [boxCopies, map_map]; exact places)
    (mem_map_of_mem (f := fun index => (dot (permutedSteps input.type output.type permOrder)
      index, dot (ovLikeStrides input.type) index)) mem) below
  rwa [stays index inside] at here

end

/-! ### The copy loops and the algorithm by indices -/

section

variable {memory : Nat → UInt8} {outType : NDType} {memPerm : DimsOrder}

theorem byteCount_eq {size count : Nat} (wholeBytes : size % 8 = 0) :
    (size * count + 7) / 8 = count * (size / 8) := by
  have split := div_add_mod size 8
  rw [wholeBytes, add_zero] at split
  rw [← split, Nat.mul_div_cancel_left _ (by decide), Nat.mul_assoc, Nat.mul_comm count]
  omega

theorem permuteBuffer_wholeBytes (input : Content) {copy : Nat → Content → Option (List UInt8)}
    (res : permuteBuffer memory input outType copy = some output) :
    input.storageElemType.size % 8 = 0 := by
  by_contra notWhole
  unfold permuteBuffer at res
  rw [ElemType.byteSize, if_neg notWhole] at res
  simp [guard] at res

theorem permuteBuffer_eq (dense : input.isSplat = false)
    (wholeBytes : input.storageElemType.size % 8 = 0)
    (sameCount : outType.numElements = input.type.numElements)
    (length : input.data.length = input.type.numElements * (input.storageElemType.size / 8))
    (copy : Nat → Content → Option (List UInt8)) :
    permuteBuffer memory input outType copy =
      let output : Content := ⟨outType, input.storageElemType, false, (List.range
        (input.type.numElements * (input.storageElemType.size / 8))).map memory⟩
      (copy (input.storageElemType.size / 8) output).map
        fun data => { output with data := data } := by
  have allocated : allocTempBuffer memory outType input.storageElemType input.isSplat =
      ⟨outType, input.storageElemType, false, (range
        (input.type.numElements * (input.storageElemType.size / 8))).map memory⟩ := by
    unfold allocTempBuffer
    simp only [dense, sameCount, false_eq_true, if_false, byteCount_eq wholeBytes]
  unfold permuteBuffer
  rw [allocated, ElemType.byteSize, if_pos wholeBytes]
  simp [length, guard, Option.map_eq_bind]

section

variable (supported : isOptimizedTransformationSupported input outType = true)
include supported

theorem supported_layouts :
    ((input.type.order = .NHWC ∧ outType.order = .NCHW) ∨
      (input.type.order = .NCHW ∧ outType.order = .NHWC)) ∨
    ((input.type.order = .NCDHW ∧ outType.order = .NDHWC) ∨
      (input.type.order = .NDHWC ∧ outType.order = .NCDHW)) := by
  unfold isOptimizedTransformationSupported at supported
  simp only [and_eq_true, or_eq_true, decide_eq_true_eq] at supported
  exact supported.2

theorem supported_layout :
    (input.type.order = .NCHW ∨ input.type.order = .NHWC) ∨
      (input.type.order = .NCDHW ∨ input.type.order = .NDHWC) := by
  rcases supported_layouts supported with (⟨isOrder, -⟩ | ⟨isOrder, -⟩) |
    ⟨isOrder, -⟩ | ⟨isOrder, -⟩
  · exact .inl (.inr isOrder)
  · exact .inl (.inl isOrder)
  · exact .inr (.inl isOrder)
  · exact .inr (.inr isOrder)

theorem supported_size : 0 < input.storageElemType.size / 8 := by
  unfold isOptimizedTransformationSupported at supported
  simp only [and_eq_true] at supported
  refine pos_of_ne_zero fun isZero => ?_
  rw [isZero] at supported
  exact absurd supported.1 (by decide)

end

theorem rank_of_order {type : NDType} {order : DimsOrder} (isOrder : type.order = order) :
    type.shape.length = order.numDims := isOrder ▸ type.matchesRank.symm

theorem length_optimizedSteps
    (supported : isOptimizedTransformationSupported input outType = true) :
    (optimizedSteps input.type outType).length = input.type.shape.length := by
  rcases supported_layout supported with (isOrder | isOrder) | (isOrder | isOrder) <;>
    simp [optimizedSteps, rank_of_order isOrder, isOrder, DimsOrder.numDims,
      DimsOrder.NCHW, DimsOrder.NHWC, DimsOrder.NCDHW, DimsOrder.NDHWC]

theorem memPermuteTransformationOptimized_eq
    (supported : isOptimizedTransformationSupported input output.type = true) :
    memPermuteTransformationOptimized elemSize input output =
      copyElements elemSize input.data (boxCopies input.type.shape
        (optimizedSteps input.type output.type) (ovLikeStrides input.type)) output.data := by
  unfold memPermuteTransformationOptimized
  rcases supported_layout supported with layout | layout
  · have rank : input.type.shape.length = 4 := by
      rcases layout with isOrder | isOrder <;> exact rank_of_order isOrder
    rw [if_pos rank, blobCopy4D_eq layout]
  · have rank : input.type.shape.length = 5 := by
      rcases layout with isOrder | isOrder <;> exact rank_of_order isOrder
    rw [if_neg (by rw [rank]; decide), if_pos rank, blobCopy5D_eq layout]

/-- The buffer that is made with some steps for the target -/
def permuted (memory : Nat → UInt8) (input : Content) (steps : List Nat) : Option (List UInt8) :=
  copyElements (input.storageElemType.size / 8) input.data
    (boxCopies input.type.shape steps (ovLikeStrides input.type))
    ((List.range (input.type.numElements * (input.storageElemType.size / 8))).map memory)

section Dense

variable (dense : input.isSplat = false)
  (wholeBytes : input.storageElemType.size % 8 = 0)
  (sameRank : memPerm.numDims = input.type.order.numDims)
  (isPermuted : outType.memShape = applyPerm input.type.memShape memPerm)
  (length : input.data.length = input.type.numElements * (input.storageElemType.size / 8))

include dense wholeBytes sameRank isPermuted length

theorem memPermuteGeneric_eq :
    memPermuteGeneric memory input outType memPerm =
      (permuted memory input (permutedSteps input.type outType memPerm)).map
        fun data => ⟨outType, input.storageElemType, false, data⟩ := by
  have sameCount : outType.numElements = input.type.numElements :=
    numElements_eq sameRank isPermuted
  rw [memPermuteGeneric, permuteBuffer_eq dense wholeBytes sameCount length]
  dsimp only
  rw [genericAlgorithm_eq sameRank isPermuted length (by simp)]
  rfl

theorem memPermuteTransformation_eq :
    memPermuteTransformation memory input outType memPerm =
      if memPerm.isIdentity = false ∧ isOptimizedTransformationSupported input outType = true then
        (permuted memory input (optimizedSteps input.type outType)).map
          fun data => ⟨outType, input.storageElemType, false, data⟩
      else memPermuteGeneric memory input outType memPerm := by
  have sameCount : outType.numElements = input.type.numElements :=
    numElements_eq sameRank isPermuted
  have outRank : input.type.order.numDims = outType.order.numDims := by
    have isLength := congrArg List.length isPermuted
    rw [outType.length_memShape, applyPerm, length_gather, ← outType.matchesRank] at isLength
    exact sameRank.symm.trans isLength.symm
  have checked : memPermuteTransformation memory input outType memPerm =
      if memPerm.isIdentity then some (moveBuffer outType input) else
        permuteBuffer memory input outType fun elemSize output =>
          if isOptimizedTransformationSupported input outType then
            memPermuteTransformationOptimized elemSize input output
          else genericAlgorithm elemSize input output memPerm := by
    unfold memPermuteTransformation
    rw [dense, Bool.false_or, guard, guard, if_pos outRank, if_pos sameRank.symm]
    rfl
  rw [checked]
  cases isIdentity : memPerm.isIdentity with
  | true =>
    rw [if_pos rfl, if_neg fun both => Bool.noConfusion both.1, memPermuteGeneric,
      permuteBuffer_eq dense wholeBytes sameCount length]
    dsimp only
    rw [genericAlgorithm_identity sameRank isPermuted length (by simp) isIdentity, moveBuffer,
      dense]
    rfl
  | false =>
    rw [if_neg Bool.false_ne_true]
    cases supported : isOptimizedTransformationSupported input outType with
    | false => rfl
    | true =>
      rw [if_pos ⟨rfl, rfl⟩, permuteBuffer_eq dense wholeBytes sameCount length]
      dsimp only
      rw [if_pos rfl, memPermuteTransformationOptimized_eq supported]
      rfl

theorem memPermuteTransformation_optimized
    (fast : memPerm.isIdentity = false ∧ isOptimizedTransformationSupported input outType = true) :
    memPermuteTransformation memory input outType memPerm =
      (permuted memory input (optimizedSteps input.type outType)).map
        fun data => ⟨outType, input.storageElemType, false, data⟩ := by
  rw [memPermuteTransformation_eq dense wholeBytes sameRank isPermuted length, if_pos fast]

end Dense

theorem permuted_eq_iff (one : List Nat) {other : List Nat}
    (pos : 0 < input.storageElemType.size / 8)
    (distinct : ((indices input.type.shape).map fun index => dot other index).Nodup)
    (less : ∀ index, Inside input.type.shape index → dot other index < input.type.numElements) :
    (∀ data : List UInt8,
      data.length = input.type.numElements * (input.storageElemType.size / 8) → ∀ memory,
        permuted memory { input with data := data } one =
          permuted memory { input with data := data } other) ↔
      ∀ index, Inside input.type.shape index → dot one index = dot other index := by
  have zeroOne : (0 : UInt8) ≠ 1 := by decide
  refine (copyElements_eq_iff zeroOne pos distinct origin_nodup
    (fun index mem => origin_less (mem_indices.mp mem))
    (fun index mem => less index (mem_indices.mp mem))).trans ?_
  exact forall_congr' fun index => by rw [mem_indices]

/-! ### What the transformations pass on -/

theorem toMemoryOrder_computeOrder {inOrder outOrder : DimsOrder}
    (sameRank : inOrder.numDims = outOrder.numDims) (values : List Nat) :
    (computeOrder inOrder outOrder sameRank).toMemoryOrder (inOrder.toMemoryOrder values) =
      outOrder.toMemoryOrder values := by
  show (outOrder.dims.map inOrder.dimPos).map _ = _
  rw [map_map]
  refine map_congr_left fun dim mem => getD_gather_idxOf ?_
  rw [inOrder.isPermutation.mem_iff, show inOrder.dims.length = outOrder.dims.length from sameRank,
    ← outOrder.isPermutation.mem_iff]
  exact mem

theorem optimizedSteps_eq (sameShape : outType.shape = input.type.shape)
    (supported : isOptimizedTransformationSupported input outType = true) :
    optimizedSteps input.type outType = ovLikeStrides outType := by
  have layouts := supported_layouts supported
  obtain ⟨⟨shape, order, elemType, isRank⟩, storageElemType, isSplat, data⟩ := input
  obtain ⟨outShape, outOrder, outElemType, isOutRank⟩ := outType
  dsimp only at sameShape layouts
  subst sameShape
  rcases layouts with (⟨rfl, rfl⟩ | ⟨rfl, rfl⟩) | ⟨rfl, rfl⟩ | ⟨rfl, rfl⟩
  · match outShape, isRank with
    | [batch, channels, height, width], _ =>
      show [channels * (height * (width * 1)), height * (width * 1), width, 1] =
        [channels * (height * (width * 1)), height * (width * 1), width * 1, 1]
      rw [mul_one]
  · match outShape, isRank with
    | [batch, channels, height, width], _ => rfl
  · match outShape, isRank with
    | [batch, channels, depth, height, width], _ => rfl
  · match outShape, isRank with
    | [batch, channels, depth, height, width], _ =>
      show [channels * (depth * (height * (width * 1))), depth * (height * (width * 1)),
          height * (width * 1), width, 1] =
        [channels * (depth * (height * (width * 1))), depth * (height * (width * 1)),
          height * (width * 1), width * 1, 1]
      rw [mul_one]

section

variable (dense : input.isSplat = false) (wholeBytes : input.storageElemType.size % 8 = 0)
include dense wholeBytes

/-- The copy loops are right for a reorder. -/
theorem memPermuteTransformation_computeOrder
    (sameRank : input.type.order.numDims = outType.order.numDims)
    (sameShape : outType.shape = input.type.shape)
    (length : input.data.length = input.type.numElements * (input.storageElemType.size / 8)) :
    memPermuteTransformation memory input outType
        (computeOrder input.type.order outType.order sameRank) =
      memPermuteGeneric memory input outType
        (computeOrder input.type.order outType.order sameRank) := by
  have ownRank : (computeOrder input.type.order outType.order sameRank).numDims =
      input.type.order.numDims := (length_map _).trans sameRank.symm
  have isPermuted : outType.memShape = applyPerm input.type.memShape
      (computeOrder input.type.order outType.order sameRank) := by
    rw [NDType.memShape, sameShape]
    exact (toMemoryOrder_computeOrder sameRank input.type.shape).symm
  rw [memPermuteTransformation_eq dense wholeBytes ownRank isPermuted length]
  split
  · rename_i fast
    rw [memPermuteGeneric_eq dense wholeBytes ownRank isPermuted length,
      optimizedSteps_eq sameShape fast.2]
    have sameCopies : boxCopies input.type.shape (ovLikeStrides outType)
        (ovLikeStrides input.type) = boxCopies input.type.shape
          (permutedSteps input.type outType (computeOrder input.type.order outType.order sameRank))
          (ovLikeStrides input.type) := by
      refine map_congr_left fun index mem => Prod.ext ?_ rfl
      have inside := mem_indices.mp mem
      rw [← flatten_permuted ownRank isPermuted inside, toMemoryOrder_computeOrder,
        ← flatten_memShape (sameShape ▸ inside)]
    rw [permuted, sameCopies]
    rfl
  · rfl

theorem ReorderAttr.transform_generic {attr : ReorderAttr}
    (length : input.data.length = input.type.numElements * (input.storageElemType.size / 8))
    (inferred : attr.inferOutputType input.type = some outType) :
    ∃ sameRank, attr.transform memory input = memPermuteGeneric memory input outType
      (computeOrder input.type.order outType.order sameRank) := by
  have isType := inferred
  unfold ReorderAttr.inferOutputType at isType
  split at isType
  · rename_i isRank
    obtain rfl := Option.some.inj isType
    have sameRank : input.type.order.numDims = attr.order.numDims :=
      input.type.matchesRank.trans isRank.symm
    refine ⟨sameRank, ?_⟩
    rw [ReorderAttr.transform, inferred, Option.bind_eq_bind, Option.bind_some, dif_pos sameRank]
    exact memPermuteTransformation_computeOrder dense wholeBytes sameRank rfl length
  · cases isType

end

/-! ### The permutations that the copy loops follow -/

/-- The transformation copies what the permutation says exactly when the copy loops move as it does
on each dimension with more than one position. -/
theorem memPermuteTransformation_generic_iff (dense : input.isSplat = false)
    (wholeBytes : input.storageElemType.size % 8 = 0)
    (sameRank : memPerm.numDims = input.type.order.numDims)
    (isPermuted : outType.memShape = applyPerm input.type.memShape memPerm) :
    (∀ data : List UInt8,
      data.length = input.type.numElements * (input.storageElemType.size / 8) → ∀ memory,
        memPermuteTransformation memory { input with data := data } outType memPerm =
          memPermuteGeneric memory { input with data := data } outType memPerm) ↔
      (memPerm.isIdentity = false → isOptimizedTransformationSupported input outType = true →
        input.type.numElements ≠ 0 → Agree input.type.shape (optimizedSteps input.type outType)
          (permutedSteps input.type outType memPerm)) := by
  have isDense : ∀ data : List UInt8, ({ input with data := data } : Content).isSplat = false :=
    fun _ => dense
  by_cases fast : memPerm.isIdentity = false ∧
      isOptimizedTransformationSupported input outType = true
  · have pos := supported_size fast.2
    have places := place_nodup sameRank isPermuted
    have injective : Function.Injective fun data : List UInt8 =>
        (⟨outType, input.storageElemType, false, data⟩ : Content) := fun one other same =>
      congrArg Content.data same
    have buffers := permuted_eq_iff (optimizedSteps input.type outType) pos places
      fun index inside => place_less sameRank isPermuted inside
    refine Iff.trans (forall_congr' fun data => forall_congr' fun length => forall_congr'
      fun memory => ?_) (buffers.trans ⟨fun same _ _ nonempty => ?_, fun agree index inside => ?_⟩)
    · rw [memPermuteTransformation_optimized (isDense data) wholeBytes sameRank isPermuted length
        fast,
        memPermuteGeneric_eq (isDense data) wholeBytes sameRank isPermuted length]
      exact (Option.map_injective injective).eq_iff
    · exact (dot_eq_iff_agree nonempty (length_optimizedSteps fast.2) length_permutedSteps).mp same
    · have nonempty : input.type.numElements ≠ 0 := ne_zero_of_lt (origin_less inside)
      exact (dot_eq_iff_agree nonempty (length_optimizedSteps fast.2) length_permutedSteps).mpr
        (agree fast.1 fast.2 nonempty) index inside
  · refine iff_of_true (fun data length memory => ?_) fun isOther supported =>
      absurd ⟨isOther, supported⟩ fast
    rw [memPermuteTransformation_eq (isDense data) wholeBytes sameRank isPermuted length]
    exact if_neg fast

end

def uint8 : ElemType := .scalar (.integer .unsigned 8)

/-- Two channels of two rows -/
def twoChannels : Content where
  type := ⟨[1, 2, 2, 2], .NCHW, uint8, by decide⟩
  storageElemType := uint8
  isSplat := false
  data := [0, 1, 2, 3, 4, 5, 6, 7]

theorem twoChannels_generic :
    memPermuteTransformation (fun _ => 0) twoChannels
      ⟨[1, 2, 2, 2], .NHWC, uint8, by decide⟩ .NHWC =
    memPermuteGeneric (fun _ => 0) twoChannels ⟨[1, 2, 2, 2], .NHWC, uint8, by decide⟩ .NHWC :=
  (memPermuteTransformation_generic_iff (show twoChannels.isSplat = false from rfl) (by decide)
    (show DimsOrder.NHWC.numDims = twoChannels.type.order.numDims by decide)
    (show NDType.memShape ⟨[1, 2, 2, 2], .NHWC, uint8, by decide⟩ =
      applyPerm twoChannels.type.memShape .NHWC by decide)).mpr (fun _ _ _ => by decide)
        twoChannels.data (by decide) fun _ => 0

theorem twoChannels_reordered : ∃ outType sameRank,
    ReorderAttr.transform ⟨.NHWC⟩ (fun _ => 0) twoChannels = memPermuteGeneric (fun _ => 0)
      twoChannels outType (computeOrder twoChannels.type.order outType.order sameRank) :=
  ⟨_, ReorderAttr.transform_generic (show twoChannels.isSplat = false from rfl) (by decide)
    (by decide) rfl⟩

/-- The rows become the columns, and what is in memory then is called channels last. -/
def transposeRows : MemPermuteAttr := ⟨.NHWC, .NCWH⟩

theorem twoChannels_not_generic : ∃ outType, transposeRows.inferOutputType twoChannels.type =
      some outType ∧
    (transposeRows.transform (fun _ => 0) twoChannels).map Content.data =
      some [0, 4, 1, 5, 2, 6, 3, 7] ∧
    (memPermuteGeneric (fun _ => 0) twoChannels outType transposeRows.memPerm).map Content.data =
      some [0, 2, 1, 3, 4, 6, 5, 7] := by
  refine ⟨⟨[1, 2, 2, 2], .NHWC, uint8, by decide⟩, by decide, ?_, ?_⟩
  · decide
  · decide

end NpuPlugin.ConstTransformations
