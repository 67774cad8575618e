/-
This file models the transformations of a constant that add elements to it, and compares a constant
that is stored as a splat with the same constant stored element by element.
-/

import NpuPlugin.ConstTransformations.MemPermute

namespace NpuPlugin.ConstTransformations

open Copies MixedRadix

/-! ### Loops -/

section

variable {α : Type*}

/-- The calls of the body, which the source may also make in parallel -/
def loop1D (dim0 : Nat) (body : Nat → α) : List α := (List.range dim0).map body

def loop2D (dim0 dim1 : Nat) (body : Nat → Nat → α) : List α :=
  (List.range dim0).flatMap fun ind0 => loop1D dim1 (body ind0)

def loop3D (dim0 dim1 dim2 : Nat) (body : Nat → Nat → Nat → α) : List α :=
  (List.range dim0).flatMap fun ind0 => loop2D dim1 dim2 (body ind0)

def loop4D (dim0 dim1 dim2 dim3 : Nat) (body : Nat → Nat → Nat → Nat → α) : List α :=
  (List.range dim0).flatMap fun ind0 => loop3D dim1 dim2 dim3 (body ind0)

end

/-! ### Zeros -/

namespace Content

variable (convert : FloatConversion) (content : Content)

/-- A zero point as a value of the storage, which is asked for its type each time -/
def castZeroPoint (zp : Int) : Option (List UInt8) :=
  (dispatchByElemType content.storageElemType).bind fun elemT =>
    if content.data.length % elemT.sizeof = 0 then
      cvt convert .int64 elemT (toBytes 8 (zp % 2 ^ 64).toNat)
    else none

def zeroOfChannel (zeroPoints : List Int) (index : List Nat) : Option (Nat × List UInt8) :=
  (zeroPoints[index.headD 0]?).bind fun zp =>
    (content.castZeroPoint convert zp).bind fun value =>
      (getMemIndex1D (content.type.order.toMemoryOrder index) content.type.memShape).map
        fun inMemInd1D => (inMemInd1D * value.length, value)

def fillWithZero : Option (List UInt8) :=
  match content.type.elemType with
  | .quantizedPerAxis _ axis zeroPoints =>
    if content.type.shape.length = 4 ∧ axis = 0 then
      (indices content.type.shape).foldlM (fun buffer index =>
        (content.zeroOfChannel convert zeroPoints index).bind fun written =>
          copyBytes written.2 0 written.2.length buffer written.1) content.data
    else none
  | .quantized _ zp => (content.castZeroPoint convert zp).map fun value =>
      (List.replicate (content.data.length / value.length) value).flatten
  | .scalar _ => some (List.replicate content.data.length 0)

end Content

/-! ### Pads -/

/-- The first and the last zero point are repeated, and all of them have to be equal. -/
def expandScalesAndZP (padBefore padAfter : List Nat) : ElemType → Option ElemType
  | .quantizedPerAxis storage axis zeroPoints =>
    (padBefore[axis]?).bind fun padBeforeOC => (padAfter[axis]?).bind fun padAfterOC =>
      if padBeforeOC = 0 ∧ padAfterOC = 0 then some (.quantizedPerAxis storage axis zeroPoints)
      else if zeroPoints ≠ [] ∧ zeroPoints.tail = zeroPoints.dropLast then
        some (.quantizedPerAxis storage axis (List.replicate padBeforeOC (zeroPoints.headD 0) ++
          zeroPoints ++ List.replicate padAfterOC (zeroPoints.getLastD 0)))
      else none
  | type => some type

def NDType.pad (type : NDType) (padBefore padAfter : List Nat) : Option NDType :=
  if padBefore.length = padAfter.length ∧ type.shape.length = padBefore.length then
    (expandScalesAndZP padBefore padAfter type.elemType).bind fun elemType =>
      let newShape := (List.range type.shape.length).map fun ind =>
        type.shape.getD ind 0 + padBefore.getD ind 0 + padAfter.getD ind 0
      NDType.changeShapeElemType type.order newShape elemType
  else none

structure PadWithZeroAttr where
  padBefore : List Nat
  padAfter : List Nat

namespace PadWithZeroAttr

def inferOutputType (attr : PadWithZeroAttr) (input : NDType) : Option NDType :=
  input.pad attr.padBefore attr.padAfter

section

variable (isSplat : Bool) (inMemShape outMemShape memPadBefore : List Nat)

/-- The case of two dimensions. The splat has only its first element. -/
def copies2D : List (Nat × Nat) :=
  let IN0 := inMemShape.getD 0 0
  let IN1 := inMemShape.getD 1 0
  let OUT1 := outMemShape.getD 1 0
  let off0 := memPadBefore.getD 0 0
  let off1 := memPadBefore.getD 1 0
  loop2D IN0 IN1 fun in0 in1 =>
    let out0 := in0 + off0
    let out1 := in1 + off1
    (out1 + out0 * OUT1, if isSplat then 0 else in1 + in0 * IN1)

def copies3D : List (Nat × Nat) :=
  let IN0 := inMemShape.getD 0 0
  let IN1 := inMemShape.getD 1 0
  let IN2 := inMemShape.getD 2 0
  let OUT1 := outMemShape.getD 1 0
  let OUT2 := outMemShape.getD 2 0
  let off0 := memPadBefore.getD 0 0
  let off1 := memPadBefore.getD 1 0
  let off2 := memPadBefore.getD 2 0
  loop3D IN0 IN1 IN2 fun in0 in1 in2 =>
    let out0 := in0 + off0
    let out1 := in1 + off1
    let out2 := in2 + off2
    (out2 + out1 * OUT2 + out0 * OUT2 * OUT1,
      if isSplat then 0 else in2 + in1 * IN2 + in0 * IN2 * IN1)

def copies4D : List (Nat × Nat) :=
  let IN0 := inMemShape.getD 0 0
  let IN1 := inMemShape.getD 1 0
  let IN2 := inMemShape.getD 2 0
  let IN3 := inMemShape.getD 3 0
  let OUT1 := outMemShape.getD 1 0
  let OUT2 := outMemShape.getD 2 0
  let OUT3 := outMemShape.getD 3 0
  let off0 := memPadBefore.getD 0 0
  let off1 := memPadBefore.getD 1 0
  let off2 := memPadBefore.getD 2 0
  let off3 := memPadBefore.getD 3 0
  loop4D IN0 IN1 IN2 IN3 fun in0 in1 in2 in3 =>
    let out0 := in0 + off0
    let out1 := in1 + off1
    let out2 := in2 + off2
    let out3 := in3 + off3
    (out3 + out2 * OUT3 + out1 * OUT3 * OUT2 + out0 * OUT3 * OUT2 * OUT1,
      if isSplat then 0 else in3 + in2 * IN3 + in1 * IN3 * IN2 + in0 * IN3 * IN2 * IN1)

def genericCopies (numElements : Nat) : Option (List (Nat × Nat)) :=
  (List.range numElements).mapM fun inMemInd1D =>
    let inMemIndND := getMemIndexND inMemInd1D inMemShape
    let outMemIndND := (List.range inMemIndND.length).map fun ind =>
      inMemIndND.getD ind 0 + memPadBefore.getD ind 0
    (getMemIndex1D outMemIndND outMemShape).map fun outMemInd1D =>
      (outMemInd1D, if isSplat then 0 else inMemInd1D)

end

def copyInto (attr : PadWithZeroAttr) (input : Content) (outputType : NDType) (elemSize : Nat)
    (filled : List UInt8) : Option (List UInt8) :=
  let order := input.type.order
  let inMemShape := order.toMemoryOrder input.type.shape
  let outMemShape := order.toMemoryOrder outputType.shape
  let memPadBefore := order.toMemoryOrder attr.padBefore
  if memPadBefore.length = 1 then
    let off0 := memPadBefore.getD 0 0
    if input.isSplat then
      copyElements elemSize input.data
        (loop1D (inMemShape.getD 0 0) fun in0 => (in0 + off0, 0)) filled
    else copyBytes input.data 0 (input.type.numElements * elemSize) filled (off0 * elemSize)
  else if memPadBefore.length = 2 then
    copyElements elemSize input.data
      (copies2D input.isSplat inMemShape outMemShape memPadBefore) filled
  else if memPadBefore.length = 3 then
    copyElements elemSize input.data
      (copies3D input.isSplat inMemShape outMemShape memPadBefore) filled
  else if memPadBefore.length = 4 then
    copyElements elemSize input.data
      (copies4D input.isSplat inMemShape outMemShape memPadBefore) filled
  else
    (genericCopies input.isSplat inMemShape outMemShape memPadBefore input.type.numElements).bind
      fun copies => copyElements elemSize input.data copies filled

def transform (attr : PadWithZeroAttr) (convert : FloatConversion) (memory : Nat → UInt8)
    (input : Content) : Option Content :=
  (attr.inferOutputType input.type).bind fun outputType =>
    let output := allocTempBuffer memory outputType input.storageElemType false
    (output.fillWithZero convert).bind fun filled =>
      input.storageElemType.byteSize.bind fun elemSize =>
        (attr.copyInto input outputType elemSize filled).map fun data =>
          { output with data := data }

end PadWithZeroAttr

/-! ### Broadcasts -/

structure BroadcastAttr where
  axis : Nat
  value : Nat

namespace BroadcastAttr

def inferOutputType (attr : BroadcastAttr) (input : NDType) : Option NDType :=
  (input.shape[attr.axis]?).bind fun extent =>
    if extent ≤ attr.value then
      let padBefore := List.replicate input.shape.length 0
      input.pad padBefore (padBefore.set attr.axis (attr.value - extent))
    else none

/-- What is copied at once is everything inside of the axis, as often as the axis is repeated. -/
def copyFactor (attr : BroadcastAttr) (input : Content) (buffer : List UInt8) :
    Option (List UInt8) :=
  let physicalShape := input.type.memShape
  let index := input.type.order.dimPos attr.axis
  let preDims := (physicalShape.take index).prod
  let expandDim := physicalShape.getD index 0
  let afterDims := (physicalShape.drop index).prod
  -- The remainder of a division by zero is not defined.
  if expandDim = 0 ∨ attr.value % expandDim ≠ 0 then none
  else
    let factor := attr.value / expandDim
    input.storageElemType.byteSize.bind fun elemSize =>
      copyElements (afterDims * elemSize) input.data
        (loop2D preDims factor fun preIndex factorIndex =>
          (preIndex * factor + factorIndex, preIndex)) buffer

def transform (attr : BroadcastAttr) (memory : Nat → UInt8) (input : Content) : Option Content :=
  (attr.inferOutputType input.type).bind fun outputType =>
    let output := allocTempBuffer memory outputType input.storageElemType input.isSplat
    (if input.isSplat then copyBytes input.data 0 input.data.length output.data 0
      else attr.copyFactor input output.data).map fun data => { output with data := data }

end BroadcastAttr

/-! ### Dilations -/

def getDilatedType (type : NDType) (dilations : List ℕ+) : Option NDType :=
  match type.shape, dilations with
  | [OC, IC, KY, KX], dilationY :: dilationX :: _ =>
    let dKY : Int := KY + (KY - 1) * (dilationY - 1)
    let dKX : Int := KX + (KX - 1) * (dilationX - 1)
    if 0 ≤ dKY ∧ 0 ≤ dKX then
      NDType.changeShapeElemType type.order [OC, IC, dKY.toNat, dKX.toNat] type.elemType
    else none
  | _, _ => none

structure ExpandDilatedAttr where
  dilations : List ℕ+

namespace ExpandDilatedAttr

def inferOutputType (attr : ExpandDilatedAttr) (input : NDType) : Option NDType :=
  getDilatedType input attr.dilations

def copies (attr : ExpandDilatedAttr) (inShape outShape : List Nat) : List (Nat × Nat) :=
  let OC := inShape.getD 0 0
  let IC := inShape.getD 1 0
  let KY := inShape.getD 2 0
  let KX := inShape.getD 3 0
  let dKY := outShape.getD 2 0
  let dKX := outShape.getD 3 0
  loop4D OC IC KY KX fun oc ic ky kx =>
    let dky := ky + ((attr.dilations.getD 0 1 : ℕ) - 1) * ky
    let dkx := kx + ((attr.dilations.getD 1 1 : ℕ) - 1) * kx
    (dkx + dky * dKX + ic * dKX * dKY + oc * dKX * dKY * IC,
      kx + ky * KX + ic * KX * KY + oc * KX * KY * IC)

def transform (attr : ExpandDilatedAttr) (convert : FloatConversion) (memory : Nat → UInt8)
    (input : Content) : Option Content :=
  (attr.inferOutputType input.type).bind fun outputType =>
    let output := allocTempBuffer memory outputType input.storageElemType false
    (output.fillWithZero convert).bind fun filled =>
      input.storageElemType.byteSize.bind fun elemSize =>
        (copyElements elemSize input.data (attr.copies input.type.shape outputType.shape)
          filled).map fun data => { output with data := data }

end ExpandDilatedAttr

open Nat
open List hiding flatten

/-! ### Loops over boxes -/

section

variable {α : Type*}

theorem length_of_mem_indices {extents index : List Nat} (mem : index ∈ indices extents) :
    index.length = extents.length :=
  (inside_iff_getD.mp (mem_indices.mp mem)).1

theorem length_eq_four {list : List α} (length : list.length = 4) :
    ∃ zero one two three, list = [zero, one, two, three] := by
  obtain ⟨zero, rest, rfl⟩ := exists_cons_of_length_eq_add_one length
  obtain ⟨one, two, three, rfl⟩ := length_eq_three.mp (succ.inj length)
  exact ⟨zero, one, two, three, rfl⟩

variable (dim0 dim1 dim2 : Nat)

theorem loop1D_eq (body : Nat → α) :
    loop1D dim0 body = (indices [dim0]).map fun index => body (index.getD 0 0) := by
  rw [loop1D, map_eq_flatMap, indices, map_flatMap]
  rfl

theorem loop2D_eq (body : Nat → Nat → α) :
    loop2D dim0 dim1 body =
      (indices [dim0, dim1]).map fun index => body (index.getD 0 0) (index.getD 1 0) := by
  rw [loop2D, indices, map_flatMap]
  refine flatMap_congr fun ind0 _ => ?_
  rw [loop1D_eq, map_map]
  rfl

theorem loop3D_eq (body : Nat → Nat → Nat → α) :
    loop3D dim0 dim1 dim2 body = (indices [dim0, dim1, dim2]).map fun index =>
      body (index.getD 0 0) (index.getD 1 0) (index.getD 2 0) := by
  rw [loop3D, indices, map_flatMap]
  refine flatMap_congr fun ind0 _ => ?_
  rw [loop2D_eq, map_map]
  rfl

theorem loop4D_eq (dim3 : Nat) (body : Nat → Nat → Nat → Nat → α) :
    loop4D dim0 dim1 dim2 dim3 body = (indices [dim0, dim1, dim2, dim3]).map fun index =>
      body (index.getD 0 0) (index.getD 1 0) (index.getD 2 0) (index.getD 3 0) := by
  rw [loop4D, indices, map_flatMap]
  refine flatMap_congr fun ind0 _ => ?_
  rw [loop3D_eq, map_map]
  rfl

section

variable {dim0 dim1 dim2 dim3 ind0 ind1 ind2 ind3 : Nat}

theorem flatten_one : flatten [dim0] [ind0] = ind0 := by simp [flatten, strides, dot]

theorem flatten_two : flatten [dim0, dim1] [ind0, ind1] = ind1 + ind0 * dim1 := by
  simp only [flatten, strides, dot, prod_cons, prod_nil]
  ring

theorem flatten_three : flatten [dim0, dim1, dim2] [ind0, ind1, ind2] =
    ind2 + ind1 * dim2 + ind0 * dim2 * dim1 := by
  simp only [flatten, strides, dot, prod_cons, prod_nil]
  ring

theorem flatten_four : flatten [dim0, dim1, dim2, dim3] [ind0, ind1, ind2, ind3] =
    ind3 + ind2 * dim3 + ind1 * dim3 * dim2 + ind0 * dim3 * dim2 * dim1 := by
  simp only [flatten, strides, dot, prod_cons, prod_nil]
  ring

end

end

/-! ### The copies of a pad -/

def padded (memPadBefore index : List Nat) : List Nat :=
  (List.range index.length).map fun ind => index.getD ind 0 + memPadBefore.getD ind 0

/-- The copies of all elements, by their indices in memory -/
def paddedCopies (isSplat : Bool) (inMemShape outMemShape memPadBefore : List Nat) :
    List (Nat × Nat) :=
  (indices inMemShape).map fun index =>
    (flatten outMemShape (padded memPadBefore index),
      if isSplat then 0 else flatten inMemShape index)

/-- Each axis has room for the elements behind the pad. -/
def Room (inMemShape outMemShape memPadBefore : List Nat) : Prop :=
  inMemShape.length = memPadBefore.length ∧ outMemShape.length = memPadBefore.length ∧
    ∀ axis < memPadBefore.length,
      inMemShape.getD axis 0 + memPadBefore.getD axis 0 ≤ outMemShape.getD axis 0

variable {copy : Nat × Nat} {elemSize : Nat} {filled : List UInt8}

section

variable {isSplat : Bool} {inMemShape outMemShape memPadBefore : List Nat}

theorem inside_padded (room : Room inMemShape outMemShape memPadBefore) {index : List Nat}
    (inside : Inside inMemShape index) : Inside outMemShape (padded memPadBefore index) := by
  obtain ⟨inLength, outLength, roomy⟩ := room
  obtain ⟨length, below⟩ := inside_iff_getD.mp inside
  refine inside_iff_getD.mpr ⟨?_, fun axis less => ?_⟩
  · rw [padded, length_map, length_range, length, inLength, outLength]
  · have here : axis < index.length := by rwa [length, inLength, ← outLength]
    have isBelow := below axis (length ▸ here)
    have isRoomy := roomy axis (outLength ▸ less)
    have value : (padded memPadBefore index).getD axis 0 =
        index.getD axis 0 + memPadBefore.getD axis 0 := by
      simp [padded, getD_eq_getElem?_getD, here]
    omega

theorem fst_paddedCopies_lt (room : Room inMemShape outMemShape memPadBefore)
    (mem : copy ∈ paddedCopies isSplat inMemShape outMemShape memPadBefore) :
    copy.1 < outMemShape.prod ∧ copy.2 < inMemShape.prod := by
  obtain ⟨index, isIndex, rfl⟩ := mem_map.mp mem
  have inside := mem_indices.mp isIndex
  refine ⟨flatten_lt (inside_padded room inside), ?_⟩
  split
  · exact zero_lt_of_lt (flatten_lt inside)
  · exact flatten_lt inside

theorem paddedCopies_splat :
    (paddedCopies false inMemShape outMemShape memPadBefore).map (fun copy => (copy.1, 0)) =
      paddedCopies true inMemShape outMemShape memPadBefore := by
  rw [paddedCopies, paddedCopies, map_map]
  rfl

variable {in0 off0 in1 off1 in2 off2 : Nat}

theorem padded_one : padded [off0] [in0] = [in0 + off0] := rfl

theorem padded_two : padded [off0, off1] [in0, in1] = [in0 + off0, in1 + off1] := rfl

theorem padded_three :
    padded [off0, off1, off2] [in0, in1, in2] = [in0 + off0, in1 + off1, in2 + off2] := rfl

theorem padded_four {in3 off3 : Nat} :
    padded [off0, off1, off2, off3] [in0, in1, in2, in3] =
      [in0 + off0, in1 + off1, in2 + off2, in3 + off3] := rfl

section

variable (room : Room inMemShape outMemShape memPadBefore)
include room

theorem copies2D_eq (rank : memPadBefore.length = 2) :
    PadWithZeroAttr.copies2D isSplat inMemShape outMemShape memPadBefore =
      paddedCopies isSplat inMemShape outMemShape memPadBefore := by
  obtain ⟨inLength, outLength, -⟩ := room
  obtain ⟨off0, off1, rfl⟩ := length_eq_two.mp rank
  obtain ⟨IN0, IN1, rfl⟩ := length_eq_two.mp inLength
  obtain ⟨OUT0, OUT1, rfl⟩ := length_eq_two.mp outLength
  refine (loop2D_eq _ _ _).trans (map_congr_left fun index mem => ?_)
  obtain ⟨in0, in1, rfl⟩ := length_eq_two.mp (length_of_mem_indices mem)
  simp only [getD_cons_zero, getD_cons_succ, flatten_two, padded_two]

theorem copies3D_eq (rank : memPadBefore.length = 3) :
    PadWithZeroAttr.copies3D isSplat inMemShape outMemShape memPadBefore =
      paddedCopies isSplat inMemShape outMemShape memPadBefore := by
  obtain ⟨inLength, outLength, -⟩ := room
  obtain ⟨off0, off1, off2, rfl⟩ := length_eq_three.mp rank
  obtain ⟨IN0, IN1, IN2, rfl⟩ := length_eq_three.mp inLength
  obtain ⟨OUT0, OUT1, OUT2, rfl⟩ := length_eq_three.mp outLength
  refine (loop3D_eq _ _ _ _).trans (map_congr_left fun index mem => ?_)
  obtain ⟨in0, in1, in2, rfl⟩ := length_eq_three.mp (length_of_mem_indices mem)
  simp only [getD_cons_zero, getD_cons_succ, flatten_three, padded_three]

theorem copies4D_eq (rank : memPadBefore.length = 4) :
    PadWithZeroAttr.copies4D isSplat inMemShape outMemShape memPadBefore =
      paddedCopies isSplat inMemShape outMemShape memPadBefore := by
  obtain ⟨inLength, outLength, -⟩ := room
  obtain ⟨off0, off1, off2, off3, rfl⟩ := length_eq_four rank
  obtain ⟨IN0, IN1, IN2, IN3, rfl⟩ := length_eq_four inLength
  obtain ⟨OUT0, OUT1, OUT2, OUT3, rfl⟩ := length_eq_four outLength
  refine (loop4D_eq _ _ _ _ _).trans (map_congr_left fun index mem => ?_)
  obtain ⟨in0, in1, in2, in3, rfl⟩ := length_eq_four (length_of_mem_indices mem)
  simp only [getD_cons_zero, getD_cons_succ, flatten_four, padded_four]

theorem genericCopies_eq :
    PadWithZeroAttr.genericCopies isSplat inMemShape outMemShape memPadBefore inMemShape.prod =
      some (paddedCopies isSplat inMemShape outMemShape memPadBefore) := by
  rw [PadWithZeroAttr.genericCopies, ← map_flatten_indices, mapM_map,
    Attempt.mapM_eq_some_iff, paddedCopies, forall₂_map_right_iff, forall₂_same]
  intro index mem
  have inside := mem_indices.mp mem
  dsimp only [Function.comp_apply]
  rw [getMemIndexND_flatten inside, ← padded, getMemIndex1D_eq (inside_padded room inside)]
  rfl

end

/-- All cases copy the same elements to the same positions. -/
theorem PadWithZeroAttr.copyInto_eq {attr : PadWithZeroAttr} {input : Content} {outputType : NDType}
    (room : Room input.type.memShape (input.type.order.toMemoryOrder outputType.shape)
      (input.type.order.toMemoryOrder attr.padBefore))
    (source : input.isSplat = false → input.data.length = input.type.numElements * elemSize)
    (target : filled.length = (input.type.order.toMemoryOrder outputType.shape).prod * elemSize) :
    attr.copyInto input outputType elemSize filled =
      copyElements elemSize input.data (paddedCopies input.isSplat input.type.memShape
        (input.type.order.toMemoryOrder outputType.shape)
        (input.type.order.toMemoryOrder attr.padBefore)) filled := by
  have numElements : input.type.numElements = input.type.memShape.prod :=
    (prod_gather input.type.order_perm).symm
  unfold PadWithZeroAttr.copyInto
  dsimp only
  rw [numElements] at source ⊢
  rw [show input.type.order.toMemoryOrder input.type.shape = input.type.memShape from rfl]
  generalize input.type.memShape = inMemShape at *
  generalize input.type.order.toMemoryOrder outputType.shape = outMemShape at *
  generalize input.type.order.toMemoryOrder attr.padBefore = memPadBefore at *
  split
  · rename_i rank
    obtain ⟨inLength, outLength, roomy⟩ := room
    have roomy0 := roomy 0 (by omega)
    obtain ⟨off0, rfl⟩ := length_eq_one_iff.mp rank
    obtain ⟨IN0, rfl⟩ := length_eq_one_iff.mp inLength
    obtain ⟨OUT0, rfl⟩ := length_eq_one_iff.mp outLength
    rw [prod_singleton] at source target ⊢
    have single : ∀ isSplat, paddedCopies isSplat [IN0] [OUT0] [off0] =
        (range IN0).map fun in0 => (in0 + off0, if isSplat then 0 else in0) := by
      intro isSplat
      refine Eq.trans (map_congr_left fun index mem => ?_) (loop1D_eq _ _).symm
      obtain ⟨in0, rfl⟩ := length_eq_one_iff.mp (length_of_mem_indices mem)
      rw [padded_one, flatten_one, flatten_one]
      rfl
    rw [single]
    split
    · rfl
    · rename_i dense
      rw [Bool.not_eq_true] at dense
      simp only [getD_cons_zero] at roomy0 ⊢
      rw [copyBytes_eq_copyElements (source dense).ge
        (target ▸ Nat.mul_le_mul_right _ ((add_comm _ _).trans_le roomy0))]
      simp only [add_comm off0]
  · split
    · rename_i rank
      rw [copies2D_eq room rank]
    · split
      · rename_i rank
        rw [copies3D_eq room rank]
      · split
        · rename_i rank
          rw [copies4D_eq room rank]
        · rw [genericCopies_eq room, Option.bind_some]

end

/-! ### Buffers of zeros -/

variable {type : ElemType}

section

variable {convert : FloatConversion} {content other : Content} {filled value : List UInt8}
  {zp : Int}

theorem ValueType.sizeof_pos (type : ValueType) : 0 < type.sizeof := by cases type <;> decide

theorem size_le_of_dispatch {outT : ValueType}
    (dispatched : dispatchByElemType type = some outT) : type.size ≤ 8 * outT.sizeof := by
  rcases lt_or_ge type.size 8 with small | whole
  · have positive := outT.sizeof_pos
    omega
  · exact (size_of_dispatch dispatched whole).le

theorem castZeroPoint_eq_some (sized : convert.Sized)
    (res : content.castZeroPoint convert zp = some value) :
    ∃ elemT, dispatchByElemType content.storageElemType = some elemT ∧
      value.length = elemT.sizeof ∧ content.data.length % elemT.sizeof = 0 := by
  obtain ⟨elemT, dispatched, res⟩ := Option.bind_eq_some_iff.mp res
  split at res
  · rename_i whole
    refine ⟨elemT, dispatched, length_cvt sized ?_ res, whole⟩
    exact (length_toBytes : (toBytes 8 _).length = ValueType.int64.sizeof)
  · cases res

theorem zeroOfChannel_eq_some (sized : convert.Sized) {zeroPoints : List Int} {index : List Nat}
    (inside : Inside content.type.shape index) {written : Nat × List UInt8}
    (res : content.zeroOfChannel convert zeroPoints index = some written) :
    ∃ elemT, dispatchByElemType content.storageElemType = some elemT ∧
      written.2.length = elemT.sizeof ∧ written.1 = flatten content.type.memShape
        (content.type.order.toMemoryOrder index) * elemT.sizeof := by
  obtain ⟨zp, -, res⟩ := Option.bind_eq_some_iff.mp res
  obtain ⟨value, isValue, res⟩ := Option.bind_eq_some_iff.mp res
  obtain ⟨elemT, dispatched, length, -⟩ := castZeroPoint_eq_some sized isValue
  have inMemory : Inside content.type.memShape (content.type.order.toMemoryOrder index) :=
    inside_gather content.type.order_perm inside
  rw [getMemIndex1D_eq inMemory, Option.map_some, Option.some.injEq] at res
  subst res
  exact ⟨elemT, dispatched, length, by rw [length]⟩

theorem castZeroPoint_congr (storage : content.storageElemType = other.storageElemType)
    (length : content.data.length = other.data.length) :
    content.castZeroPoint convert zp = other.castZeroPoint convert zp := by
  unfold Content.castZeroPoint
  rw [storage, length]

theorem length_fillWithZero (sized : convert.Sized)
    (res : content.fillWithZero convert = some filled) : filled.length = content.data.length := by
  unfold Content.fillWithZero at res
  split at res
  · split at res
    · exact length_foldlM_writes res
    · cases res
  · obtain ⟨value, isValue, rfl⟩ := Option.map_eq_some_iff.mp res
    rw [length_flatten_replicate]
    obtain ⟨elemT, -, length, whole⟩ := castZeroPoint_eq_some sized isValue
    rw [length]
    exact Nat.div_mul_cancel (Nat.dvd_of_mod_eq_zero whole)
  · rw [← Option.some.inj res, length_replicate]

theorem fillWithZero_congr (sized : convert.Sized) (type : content.type = other.type)
    (storage : content.storageElemType = other.storageElemType) (length : content.data.length =
      (content.storageElemType.size * content.type.numElements + 7) / 8)
    (sameLength : content.data.length = other.data.length) :
    content.fillWithZero convert = other.fillWithZero convert := by
  unfold Content.fillWithZero
  rw [← type]
  have sameZero : ∀ zp, other.castZeroPoint convert zp = content.castZeroPoint convert zp :=
    fun zp => (castZeroPoint_congr storage sameLength).symm
  split
  · rename_i zeroPoints _
    split
    · have sameWrite : ∀ index, other.zeroOfChannel convert zeroPoints index =
          content.zeroOfChannel convert zeroPoints index := fun index => by
        unfold Content.zeroOfChannel
        simp only [sameZero, type]
      simp only [sameWrite]
      by_cases someFails : ∃ index ∈ indices content.type.shape,
          content.zeroOfChannel convert zeroPoints index = none
      · obtain ⟨index, mem, fails⟩ := someFails
        rw [Attempt.foldlM_eq_none mem fun buffer => by rw [fails]; rfl,
          Attempt.foldlM_eq_none mem fun buffer => by rw [fails]; rfl]
      · push Not at someFails
        refine foldlM_writes_congr sameLength fun place untouched => ?_
        rcases lt_or_ge place content.data.length with inside | behind
        · have written : ∀ index ∈ indices content.type.shape, ∃ elemT,
              dispatchByElemType content.storageElemType = some elemT ∧
              ¬ (flatten content.type.memShape (content.type.order.toMemoryOrder index) *
                elemT.sizeof ≤ place ∧ place < flatten content.type.memShape
                  (content.type.order.toMemoryOrder index) * elemT.sizeof + elemT.sizeof) := by
            intro index mem
            obtain ⟨pair, isPair⟩ := Option.ne_none_iff_exists'.mp (someFails index mem)
            obtain ⟨elemT, dispatched, isLength, isPlace⟩ :=
              zeroOfChannel_eq_some sized (mem_indices.mp mem) isPair
            refine ⟨elemT, dispatched, ?_⟩
            rw [← isPlace, ← isLength]
            exact untouched index mem pair.1 pair.2 isPair
          rw [length] at inside
          have nonempty : 0 < content.type.shape.prod := pos_of_ne_zero fun isZero => by
            rw [NDType.numElements, isZero, mul_zero] at inside
            exact not_lt_zero _ inside
          obtain ⟨any, isAny, -⟩ := exists_flatten nonempty
          obtain ⟨elemT, dispatched, -⟩ := written any (mem_indices.mpr isAny)
          have inElements : place / elemT.sizeof < content.type.memShape.prod := by
            rw [NDType.memShape, DimsOrder.toMemoryOrder, prod_gather content.type.order_perm]
            have room := Nat.mul_le_mul_right content.type.shape.prod
              (size_le_of_dispatch dispatched)
            rw [mul_assoc] at room
            rw [NDType.numElements] at inside
            exact Nat.div_lt_of_lt_mul (by omega)
          obtain ⟨memIndex, inMemory, isElement⟩ := exists_flatten inElements
          obtain ⟨index, mem, rfl⟩ := mem_map.mp
            ((indices_gather_perm content.type.order_perm).subset (mem_indices.mpr inMemory))
          obtain ⟨sameT, isDispatched, outside⟩ := written index mem
          obtain rfl := Option.some.inj (dispatched.symm.trans isDispatched)
          refine absurd ?_ outside
          rw [DimsOrder.toMemoryOrder, isElement]
          exact ⟨div_mul_le_self _ _, lt_div_mul_add elemT.sizeof_pos⟩
        · rw [getElem?_eq_none behind, getElem?_eq_none (sameLength ▸ behind)]
    · rfl
  · rw [sameZero, sameLength]
  · rw [sameLength]

end

/-! ### Dense contents -/

def boolType : ElemType := .scalar (.integer .signless 1)

/-- Values of one bit, eight to a byte, where the last byte is filled with zeros -/
def packedBits (count : Nat) (bit : Bool) : List UInt8 :=
  (List.range ((count + 7) / 8)).map fun byte =>
    if bit then UInt8.ofNat (2 ^ min 8 (count - 8 * byte) - 1) else 0

/-- The same constant with all its elements -/
def Content.expanded (content : Content) : Content :=
  { content with
    isSplat := false
    data :=
      if content.storageElemType = boolType then
        packedBits content.type.numElements ((content.data.headD 0).toNat.testBit 0)
      else (List.replicate content.type.numElements content.data).flatten }

/-- A splat stores one element in whole bytes, and its value is one of the type. -/
structure Content.StoresSplat (convert : FloatConversion) (content : Content) : Prop where
  splat : content.isSplat = true
  stored : content.data.length = (content.storageElemType.size + 7) / 8
  inType : content.type.elemType.size < 8 → ∃ value, content.subByteValue convert = some value ∧
    -2 ^ (content.type.elemType.size - 1) ≤ value ∧ value < 2 ^ content.type.elemType.size

/-- Contents with equal elements, or none at all -/
def SameElements : Option Content → Option Content → Prop
  | none, none => True
  | some one, some other =>
    one.type = other.type ∧ one.storageElemType = other.storageElemType ∧
      ∀ coordinate, Inside one.type.shape coordinate →
        one.elementAt coordinate = other.elementAt coordinate
  | _, _ => False

theorem SameElements.refl : ∀ content, SameElements content content
  | none => trivial
  | some _ => ⟨rfl, rfl, fun _ _ => rfl⟩

/-! ### Pads of splats -/

section

variable {convert : FloatConversion} {content : Content} {attr : PadWithZeroAttr}
  {outputType : NDType} {elemSize : Nat}

theorem byteSize_eq_some (isSize : type.byteSize = some elemSize) :
    type.size % 8 = 0 ∧ elemSize = type.size / 8 := by
  unfold ElemType.byteSize at isSize
  split at isSize
  · rename_i whole
    exact ⟨whole, (Option.some.inj isSize).symm⟩
  · cases isSize

section

variable (inferred : attr.inferOutputType content.type = some outputType)
include inferred

theorem room_of_pad :
    Room content.type.memShape (content.type.order.toMemoryOrder outputType.shape)
      (content.type.order.toMemoryOrder attr.padBefore) := by
  unfold PadWithZeroAttr.inferOutputType NDType.pad at inferred
  split at inferred
  · rename_i lengths
    obtain ⟨elemType, -, changed⟩ := Option.bind_eq_some_iff.mp inferred
    obtain ⟨⟨-, isShape, -⟩, -⟩ := NDType.changeShapeElemType_eq_some.mp changed
    unfold NDType.memShape DimsOrder.toMemoryOrder
    refine ⟨by rw [length_gather, length_gather], by rw [length_gather, length_gather],
      fun axis less => ?_⟩
    rw [length_gather] at less
    rw [getD_gather less, getD_gather less, getD_gather less, ← isShape]
    have inShape : content.type.order.dims.getD axis 0 < content.type.shape.length := by
      refine (mem_order content.type.order_perm).mp ?_
      rw [getD_eq_getElem _ _ less]
      exact getElem_mem less
    generalize content.type.order.dims.getD axis 0 = dim at inShape
    simp [getD_eq_getElem?_getD, inShape]
  · cases inferred

theorem order_of_pad : outputType.order = content.type.order := by
  unfold PadWithZeroAttr.inferOutputType NDType.pad at inferred
  split at inferred
  · obtain ⟨elemType, -, changed⟩ := Option.bind_eq_some_iff.mp inferred
    exact (NDType.changeShapeElemType_eq_some.mp changed).1.1.symm
  · cases inferred

end

theorem Content.StoresSplat.length_data (stored : content.StoresSplat convert)
    (isSize : content.storageElemType.byteSize = some elemSize) :
    content.data.length = elemSize := by
  obtain ⟨whole, rfl⟩ := byteSize_eq_some isSize
  rw [stored.stored]
  omega

theorem expanded_data (isSize : content.storageElemType.byteSize = some elemSize) :
    content.expanded.data = (List.replicate content.type.numElements content.data).flatten := by
  have notBool : content.storageElemType ≠ boolType := fun isBool => by
    rw [isBool] at isSize
    cases isSize
  exact if_neg notBool

/-- A splat and its elements give the same buffer, and only stored elements are read. -/
theorem PadWithZeroAttr.copyInto_expanded (stored : content.StoresSplat convert)
    (inferred : attr.inferOutputType content.type = some outputType)
    (isSize : content.storageElemType.byteSize = some elemSize)
    (length : filled.length = outputType.numElements * elemSize) :
    ∃ after, attr.copyInto content outputType elemSize filled = some after ∧
      attr.copyInto content.expanded outputType elemSize filled = some after := by
  have isLength := stored.length_data isSize
  have room := room_of_pad inferred
  have outElements : (content.type.order.toMemoryOrder outputType.shape).prod =
      outputType.numElements := by
    rw [← order_of_pad inferred]
    exact prod_gather outputType.order_perm
  have inElements : content.type.memShape.prod = content.type.numElements :=
    prod_gather content.type.order_perm
  have denseData := expanded_data isSize
  have denseLength : content.expanded.data.length =
      content.expanded.type.numElements * elemSize := by
    rw [denseData, length_flatten_replicate, isLength]
    rfl
  rw [copyInto_eq room (fun dense => Bool.noConfusion (stored.splat.symm.trans dense))
      (outElements ▸ length),
    copyInto_eq (show Room content.expanded.type.memShape _ _ from room) (fun _ => denseLength)
      (outElements ▸ length), denseData, stored.splat]
  have fits : Fits elemSize content.data filled (paddedCopies true content.type.memShape
      (content.type.order.toMemoryOrder outputType.shape)
      (content.type.order.toMemoryOrder attr.padBefore)) := by
    intro copy mem
    have inTarget := (fst_paddedCopies_lt room mem).1
    obtain ⟨index, -, rfl⟩ := mem_map.mp mem
    rw [length, ← outElements, isLength]
    refine ⟨by simp, ?_⟩
    rw [← succ_mul]
    exact Nat.mul_le_mul_right _ inTarget
  obtain ⟨after, copied⟩ := exists_copyElements fits
  refine ⟨after, copied, ?_⟩
  subst isLength
  refine (copyElements_repeated fun copy mem => ?_).trans ?_
  · exact inElements ▸ (fst_paddedCopies_lt room mem).2
  · rw [← copied, ← paddedCopies_splat]
    rfl

/-- What a transformation that writes into a buffer of zeros needs -/
def AcceptsZeros (convert : FloatConversion) (content : Content) (outputType : NDType) : Prop :=
  content.storageElemType.size % 8 = 0 ∧ ((allocTempBuffer (fun _ => 0) outputType
    content.storageElemType false).fillWithZero convert).isSome

theorem length_allocTempBuffer {memory : Nat → UInt8} {storageElemType : ElemType} :
    (allocTempBuffer memory outputType storageElemType false).data.length =
      (storageElemType.size * outputType.numElements + 7) / 8 := by
  simp [allocTempBuffer]

theorem fillWithZero_allocTempBuffer (sized : convert.Sized) {storageElemType : ElemType}
    (memory otherMemory : Nat → UInt8) :
    (allocTempBuffer memory outputType storageElemType false).fillWithZero convert =
      (allocTempBuffer otherMemory outputType storageElemType false).fillWithZero convert :=
  fillWithZero_congr sized rfl rfl length_allocTempBuffer
    (length_allocTempBuffer.trans length_allocTempBuffer.symm)

theorem PadWithZeroAttr.transform_expanded (sized : convert.Sized)
    (stored : content.StoresSplat convert) (attr : PadWithZeroAttr)
    (memory otherMemory : Nat → UInt8) :
    attr.transform convert memory content =
      attr.transform convert otherMemory content.expanded := by
  unfold PadWithZeroAttr.transform
  rw [show content.expanded.type = content.type from rfl,
    show content.expanded.storageElemType = content.storageElemType from rfl]
  cases inferred : attr.inferOutputType content.type with
  | none => rfl
  | some outputType =>
    simp only [Option.bind_some]
    rw [fillWithZero_allocTempBuffer sized memory otherMemory]
    cases filled : (allocTempBuffer otherMemory outputType content.storageElemType
        false).fillWithZero convert with
    | none => rfl
    | some zeros =>
      cases isSize : content.storageElemType.byteSize with
      | none => rfl
      | some elemSize =>
        have length := (length_fillWithZero sized filled).trans length_allocTempBuffer
        obtain ⟨whole, isElemSize⟩ := byteSize_eq_some isSize
        rw [byteCount_eq whole, ← isElemSize] at length
        obtain ⟨after, copied, denseCopied⟩ := copyInto_expanded stored inferred isSize length
        simp only [Option.bind_some]
        rw [copied, denseCopied]
        rfl

/-- Only stored elements are read, so that nothing but the type and the zeros can be rejected. -/
theorem PadWithZeroAttr.isSome_transform (sized : convert.Sized)
    (stored : content.StoresSplat convert) (attr : PadWithZeroAttr) (memory : Nat → UInt8)
    (inferred : attr.inferOutputType content.type = some outputType)
    (accepted : AcceptsZeros convert content outputType) :
    (attr.transform convert memory content).isSome := by
  obtain ⟨whole, isFilled⟩ := accepted
  rw [fillWithZero_allocTempBuffer sized _ memory] at isFilled
  obtain ⟨zeros, filled⟩ := Option.isSome_iff_exists.mp isFilled
  have isSize : content.storageElemType.byteSize = some (content.storageElemType.size / 8) :=
    if_pos whole
  have length := (length_fillWithZero sized filled).trans length_allocTempBuffer
  rw [byteCount_eq whole] at length
  obtain ⟨after, copied, -⟩ := copyInto_expanded stored inferred isSize length
  unfold PadWithZeroAttr.transform
  rw [inferred, Option.bind_some]
  dsimp only
  rw [filled, Option.bind_some, isSize, Option.bind_some, copied]
  rfl

end

/-! ### Dilations of splats -/

variable {buffer : List UInt8}

section

variable {convert : FloatConversion} {content : Content} {attr : ExpandDilatedAttr}
  {outputType : NDType}

/-- The positions on the last two axes are spread. -/
def ExpandDilatedAttr.dilated (attr : ExpandDilatedAttr) (index : List Nat) : List Nat :=
  [index.getD 0 0, index.getD 1 0,
    index.getD 2 0 + ((attr.dilations.getD 0 1 : ℕ) - 1) * index.getD 2 0,
    index.getD 3 0 + ((attr.dilations.getD 1 1 : ℕ) - 1) * index.getD 3 0]

theorem spread_lt {extent position : Nat} (dilation : ℕ+) (less : position < extent) :
    position + ((dilation : ℕ) - 1) * position <
      ((extent : Int) + (extent - 1) * ((dilation : ℕ) - 1)).toNat := by
  have positive := dilation.pos
  generalize (dilation : ℕ) = number at positive ⊢
  obtain ⟨further, rfl⟩ := Nat.exists_eq_add_of_lt positive
  obtain ⟨behind, rfl⟩ := Nat.exists_eq_add_of_lt less
  have extra := mul_le_mul_left further (le_add_right position behind)
  rw [show ((position + behind + 1 : Nat) : Int) + (((position + behind + 1 : Nat) : Int) - 1) *
    (((0 + further + 1 : Nat) : Int) - 1) =
      ((position + behind + 1 + further * (position + behind) : Nat) : Int) by push_cast; ring,
    Int.toNat_natCast, Nat.add_sub_cancel, Nat.zero_add]
  omega

theorem ExpandDilatedAttr.copies_eq
    (inferred : attr.inferOutputType content.type = some outputType) :
    attr.copies content.type.shape outputType.shape = (indices content.type.shape).map
        (fun index => (flatten outputType.shape (attr.dilated index),
          flatten content.type.shape index)) ∧
      ∀ index ∈ indices content.type.shape, Inside outputType.shape (attr.dilated index) := by
  unfold inferOutputType getDilatedType at inferred
  split at inferred
  · rename_i OC IC KY KX dilationY dilationX rest isShape isDilations
    dsimp only at inferred
    split at inferred
    · obtain ⟨⟨-, outShape, -⟩, -⟩ := NDType.changeShapeElemType_eq_some.mp inferred
      rw [isShape, ← outShape]
      constructor
      · refine (loop4D_eq _ _ _ _ _).trans (map_congr_left fun index mem => ?_)
        obtain ⟨oc, ic, ky, kx, rfl⟩ := length_eq_four (length_of_mem_indices mem)
        rw [dilated, flatten_four, flatten_four]
        rfl
      · intro index mem
        have inside := mem_indices.mp mem
        obtain ⟨oc, ic, ky, kx, rfl⟩ := length_eq_four (length_of_mem_indices mem)
        rw [dilated, isDilations]
        obtain ⟨ocLess, icLess, kyLess, kxLess, -⟩ := inside
        exact ⟨ocLess, icLess, spread_lt dilationY kyLess, spread_lt dilationX kxLess, trivial⟩
    · cases inferred
  · cases inferred

theorem elemSize_pos (isSize : type.byteSize = some elemSize) : 0 < elemSize := by
  obtain ⟨whole, rfl⟩ := byteSize_eq_some isSize
  have positive := type.size_pos
  omega

theorem copyElements_eq_none {copies : List (Nat × Nat)}
    (positive : 0 < content.data.length) (mem : copy ∈ copies) (notFirst : copy.2 ≠ 0) :
    copyElements content.data.length content.data copies buffer = none := by
  refine Attempt.foldlM_eq_none mem (fun state => if_neg fun inside => ?_) buffer
  have further := Nat.mul_le_mul_right content.data.length (one_le_iff_ne_zero.mpr notFirst)
  omega

/-- The elements of a splat are all read, and there is only one. -/
theorem ExpandDilatedAttr.copyElements_expanded_iff (stored : content.StoresSplat convert)
    (inferred : attr.inferOutputType content.type = some outputType)
    (isSize : content.storageElemType.byteSize = some elemSize) {zeros : List UInt8}
    (length : zeros.length = outputType.numElements * elemSize) :
    ∃ after, copyElements elemSize content.expanded.data
        (attr.copies content.type.shape outputType.shape) zeros = some after ∧
      copyElements elemSize content.data (attr.copies content.type.shape outputType.shape) zeros =
        if content.type.numElements ≤ 1 then some after else none := by
  obtain ⟨isCopies, inside⟩ := copies_eq inferred
  have isLength := stored.length_data isSize
  subst isLength
  have positive := elemSize_pos isSize
  have inContent : ∀ copy ∈ attr.copies content.type.shape outputType.shape,
      copy.2 < content.type.numElements := by
    intro copy mem
    rw [isCopies] at mem
    obtain ⟨index, isIndex, rfl⟩ := mem_map.mp mem
    exact flatten_lt (mem_indices.mp isIndex)
  have fits : Fits content.data.length
      (replicate content.type.numElements content.data).flatten zeros
      (attr.copies content.type.shape outputType.shape) := by
    intro copy mem
    refine ⟨?_, ?_⟩
    · rw [length_flatten_replicate, ← succ_mul]
      exact Nat.mul_le_mul_right _ (inContent copy mem)
    · rw [isCopies] at mem
      obtain ⟨index, isIndex, rfl⟩ := mem_map.mp mem
      rw [length, ← succ_mul]
      exact Nat.mul_le_mul_right _ (flatten_lt (inside index isIndex))
  obtain ⟨after, copied⟩ := exists_copyElements fits
  refine ⟨after, (expanded_data isSize).symm ▸ copied, ?_⟩
  split
  · rename_i single
    have onlyFirst : (attr.copies content.type.shape outputType.shape).map
        (fun copy => (copy.1, 0)) = attr.copies content.type.shape outputType.shape := by
      refine (map_congr_left fun copy mem => ?_).trans (map_id _)
      have isFirst : copy.2 = 0 := by
        have less := inContent copy mem
        omega
      exact Prod.ext rfl isFirst.symm
    rw [← onlyFirst, ← copyElements_repeated inContent, copied]
  · rename_i several
    obtain ⟨index, isIndex, isSecond⟩ := exists_flatten (not_le.mp several)
    have mem : (flatten outputType.shape (attr.dilated index), 1) ∈
        attr.copies content.type.shape outputType.shape := by
      rw [isCopies, ← isSecond]
      exact mem_map_of_mem (mem_indices.mpr isIndex)
    exact copyElements_eq_none positive mem one_ne_zero

theorem ExpandDilatedAttr.transform_expanded_iff (sized : convert.Sized)
    (stored : content.StoresSplat convert) (attr : ExpandDilatedAttr)
    (memory otherMemory : Nat → UInt8) :
    SameElements (attr.transform convert memory content)
        (attr.transform convert otherMemory content.expanded) ↔
      ∀ outputType, attr.inferOutputType content.type = some outputType →
        AcceptsZeros convert content outputType → content.type.numElements ≤ 1 := by
  unfold ExpandDilatedAttr.transform
  rw [show content.expanded.type = content.type from rfl,
    show content.expanded.storageElemType = content.storageElemType from rfl]
  cases inferred : attr.inferOutputType content.type with
  | none =>
    exact iff_of_true trivial fun _ impossible => absurd impossible.symm (Option.some_ne_none _)
  | some outputType =>
    simp only [Option.bind_some, Option.some.injEq, forall_eq']
    unfold AcceptsZeros
    rw [fillWithZero_allocTempBuffer sized memory otherMemory,
      fillWithZero_allocTempBuffer sized (fun _ => 0) otherMemory]
    cases filled : (allocTempBuffer otherMemory outputType content.storageElemType
        false).fillWithZero convert with
    | none => exact iff_of_true trivial fun both => Bool.noConfusion both.2
    | some zeros =>
      cases isSize : content.storageElemType.byteSize with
      | none =>
        refine iff_of_true trivial fun both => ?_
        rw [ElemType.byteSize, if_pos both.1] at isSize
        cases isSize
      | some elemSize =>
        have length := (length_fillWithZero sized filled).trans length_allocTempBuffer
        obtain ⟨whole, isElemSize⟩ := byteSize_eq_some isSize
        rw [byteCount_eq whole, ← isElemSize] at length
        obtain ⟨after, denseCopied, copied⟩ :=
          copyElements_expanded_iff stored inferred isSize length
        simp only [Option.bind_some]
        rw [copied, denseCopied]
        split
        · rename_i single
          exact iff_of_true (SameElements.refl _) fun _ => single
        · rename_i several
          exact iff_of_false id fun few => several (few ⟨whole, rfl⟩)

end

/-! ### Broadcasts of splats -/

section

variable {convert : FloatConversion} {content : Content} {attr : BroadcastAttr}
  {outputType : NDType} {elemSize : Nat}

theorem elementAt_expanded (splat : content.isSplat = true)
    (isSize : content.storageElemType.byteSize = some elemSize)
    (length : content.data.length = elemSize) {coordinate : List Nat}
    (inside : Inside content.type.shape coordinate) :
    content.elementAt coordinate = content.expanded.elementAt coordinate := by
  obtain ⟨whole, isElemSize⟩ := byteSize_eq_some isSize
  have less : flatten content.type.memShape (content.type.order.toMemoryOrder coordinate) <
      content.type.numElements := by
    rw [NDType.numElements, ← prod_gather content.type.order_perm]
    exact flatten_lt (inside_gather content.type.order_perm inside)
  have number : content.number coordinate = 0 := if_pos splat
  have denseNumber : content.expanded.number coordinate =
      flatten content.type.memShape (content.type.order.toMemoryOrder coordinate) := rfl
  unfold Content.elementAt
  rw [number, denseNumber, expanded_data isSize]
  refine elementBits_of_bytes whole fun offset below => ?_
  rw [← isElemSize, ← length] at below ⊢
  rw [getElem?_flatten_replicate, zero_mul, Nat.zero_add, mul_comm, mul_add_mod, mod_eq_of_lt below]
  calc _ < _ := Nat.add_lt_add_left below _
    _ = _ := (succ_mul _ _).symm
    _ ≤ _ := Nat.mul_le_mul_right _ less

section

variable (inferred : attr.inferOutputType content.type = some outputType)
include inferred

theorem shape_of_broadcast :
    attr.axis < content.type.shape.length ∧
      outputType.shape = content.type.shape.set attr.axis attr.value := by
  obtain ⟨extent, isExtent, inferred⟩ := Option.bind_eq_some_iff.mp inferred
  obtain ⟨inside, isExtent⟩ := List.getElem?_eq_some_iff.mp isExtent
  refine ⟨inside, ?_⟩
  split at inferred
  · rename_i fits
    unfold NDType.pad at inferred
    dsimp only at inferred
    split at inferred
    · obtain ⟨elemType, -, changed⟩ := Option.bind_eq_some_iff.mp inferred
      rw [← (NDType.changeShapeElemType_eq_some.mp changed).1.2.1]
      refine ext_getElem (by simp) fun dim isDim _ => ?_
      rw [length_map, length_range] at isDim
      rw [getElem_map, getElem_range, getElem_set]
      split
      · rename_i isAxis
        subst isAxis
        simp [getD_eq_getElem?_getD, inside, isExtent, fits]
      · rename_i isOther
        simp [getD_eq_getElem?_getD, isDim, isOther]
    · cases inferred
  · cases inferred

theorem extent_of_broadcast :
    content.type.memShape.getD (content.type.order.dimPos attr.axis) 0 =
      content.type.shape.getD attr.axis 0 :=
  getD_gather_idxOf ((mem_order content.type.order_perm).mpr (shape_of_broadcast inferred).1)

theorem numElements_of_broadcast :
    outputType.numElements * content.type.memShape.getD
      (content.type.order.dimPos attr.axis) 0 = content.type.numElements * attr.value := by
  obtain ⟨inside, isShape⟩ := shape_of_broadcast inferred
  have extent : content.type.memShape.getD (content.type.order.dimPos attr.axis) 0 =
      content.type.shape[attr.axis] := by
    rw [extent_of_broadcast inferred, getD_eq_getElem _ _ inside]
  have split := prod_take_mul_prod_drop content.type.shape attr.axis
  rw [drop_eq_getElem_cons inside, prod_cons] at split
  rw [NDType.numElements, isShape, prod_set, if_pos inside, extent, NDType.numElements, ← split]
  ring

end

/-- The blocks of a splat's elements fill the buffer with the element. -/
theorem BroadcastAttr.copyFactor_expanded
    (isSize : content.storageElemType.byteSize = some elemSize)
    (length : content.data.length = elemSize)
    (inferred : attr.inferOutputType content.type = some outputType)
    (someExtent : content.type.memShape.getD (content.type.order.dimPos attr.axis) 0 ≠ 0)
    (divides : attr.value % content.type.memShape.getD (content.type.order.dimPos attr.axis) 0 = 0)
    (bufferLength : buffer.length = outputType.numElements * elemSize) :
    attr.copyFactor content.expanded buffer =
      some (List.replicate outputType.numElements content.data).flatten := by
  have elements := numElements_of_broadcast inferred
  have blocks := prod_take_mul_prod_drop content.type.memShape
    (content.type.order.dimPos attr.axis)
  rw [show content.type.memShape.prod = content.type.numElements from
    prod_gather content.type.order_perm] at blocks
  unfold copyFactor
  rw [show content.expanded.type = content.type from rfl,
    show content.expanded.storageElemType = content.storageElemType from rfl,
    if_neg (not_or.mpr ⟨someExtent, not_not.mpr divides⟩), isSize, Option.bind_some,
    expanded_data isSize]
  generalize content.type.memShape.getD (content.type.order.dimPos attr.axis) 0 = expandDim at *
  generalize (content.type.memShape.take (content.type.order.dimPos attr.axis)).prod = preDims at *
  generalize (content.type.memShape.drop (content.type.order.dimPos attr.axis)).prod =
    afterDims at *
  obtain ⟨factor, isFactor⟩ := Nat.dvd_of_mod_eq_zero divides
  have positive := pos_of_ne_zero someExtent
  rw [isFactor, Nat.mul_div_cancel_left _ positive]
  have outElements : outputType.numElements = preDims * factor * afterDims := by
    refine eq_of_mul_eq_mul_right positive ?_
    rw [elements, isFactor, ← blocks]
    ring
  subst length
  have inBlocks : ∀ copy ∈ loop2D preDims factor (fun preIndex factorIndex =>
      (preIndex * factor + factorIndex, preIndex)),
      copy.2 < preDims ∧ copy.1 < preDims * factor := by
    intro copy mem
    obtain ⟨preIndex, inPre, isCopy⟩ := mem_flatMap.mp mem
    obtain ⟨factorIndex, inFactor, rfl⟩ := mem_map.mp isCopy
    rw [mem_range] at inPre inFactor
    refine ⟨inPre, ?_⟩
    calc preIndex * factor + factorIndex < preIndex * factor + factor :=
          Nat.add_lt_add_left inFactor _
      _ = (preIndex + 1) * factor := (succ_mul _ _).symm
      _ ≤ preDims * factor := Nat.mul_le_mul_right _ inPre
  have sourceLength : (replicate content.type.numElements content.data).flatten.length =
      preDims * (afterDims * content.data.length) := by
    rw [length_flatten_replicate, ← blocks, mul_assoc]
  have targetLength : buffer.length =
      preDims * factor * (afterDims * content.data.length) := by
    rw [bufferLength, outElements, mul_assoc]
  have fits : Fits (afterDims * content.data.length)
      (replicate content.type.numElements content.data).flatten buffer
      (loop2D preDims factor fun preIndex factorIndex =>
        (preIndex * factor + factorIndex, preIndex)) := by
    intro copy mem
    rw [sourceLength, targetLength, ← succ_mul, ← succ_mul]
    exact ⟨Nat.mul_le_mul_right _ (inBlocks copy mem).1,
      Nat.mul_le_mul_right _ (inBlocks copy mem).2⟩
  obtain ⟨after, copied⟩ := exists_copyElements fits
  have holds := copyElements_holds copied
  rw [copied]
  refine congrArg some (eq_of_elements (holds.1.trans targetLength) ?_
    fun block less offset below => ?_)
  · rw [length_flatten_replicate, outElements, mul_assoc]
  · -- Blocks are as long as some elements, so that a byte has the same place in its element.
    have byte : ∀ count block, block < count →
        (replicate (count * afterDims) content.data).flatten[
          block * (afterDims * content.data.length) + offset]? =
            content.data[offset % content.data.length]? := by
      intro count block less
      rw [getElem?_flatten_replicate, ← mul_assoc, mul_comm, mul_add_mod]
      calc _ < _ := Nat.add_lt_add_left below _
        _ = _ := (succ_mul _ _).symm
        _ ≤ _ := Nat.mul_le_mul_right _ less
        _ = _ := (mul_assoc _ _ _).symm
    rw [outElements, byte _ _ less]
    rcases holds.2 block offset below with ⟨first, mem, same⟩ | ⟨none, -⟩
    · rw [same, ← blocks, byte _ _ (inBlocks _ mem).1]
    · have someFactor : 0 < factor := pos_of_ne_zero fun isZero => by
        rw [isZero, mul_zero] at less
        exact not_lt_zero _ less
      refine absurd ?_ (none (block / factor))
      refine mem_flatMap.mpr ⟨block / factor, mem_range.mpr ?_,
        mem_map.mpr ⟨block % factor, mem_range.mpr (mod_lt _ someFactor), ?_⟩⟩
      · exact (div_lt_iff_lt_mul someFactor).mpr less
      · exact Prod.ext (div_add_mod' _ _) rfl

theorem BroadcastAttr.transform_splat (stored : content.StoresSplat convert)
    (inferred : attr.inferOutputType content.type = some outputType) (memory : Nat → UInt8) :
    attr.transform memory content =
      some ⟨outputType, content.storageElemType, true, content.data⟩ := by
  have length : (allocTempBuffer memory outputType content.storageElemType true).data.length =
      content.data.length := by
    simp [allocTempBuffer, stored.stored]
  have copied : copyBytes content.data 0 content.data.length
      (allocTempBuffer memory outputType content.storageElemType true).data 0 =
        some content.data := by
    refine copyBytes_eq_some.mpr ⟨(Nat.zero_add _).le, ?_, ?_⟩
    · rw [length, Nat.zero_add]
    · rw [take_zero, nil_append, drop_zero, take_length, Nat.zero_add,
        ← length, drop_length, append_nil]
  unfold BroadcastAttr.transform
  rw [inferred, Option.bind_some]
  dsimp only
  rw [stored.splat, if_pos rfl, copied]
  rfl

theorem BroadcastAttr.transform_expanded_iff (stored : content.StoresSplat convert)
    (attr : BroadcastAttr) (memory otherMemory : Nat → UInt8) :
    SameElements (attr.transform memory content) (attr.transform otherMemory content.expanded) ↔
      ∀ outputType, attr.inferOutputType content.type = some outputType →
        content.storageElemType.size % 8 = 0 ∧ content.type.shape.getD attr.axis 0 ≠ 0 ∧
          attr.value % content.type.shape.getD attr.axis 0 = 0 := by
  cases inferred : attr.inferOutputType content.type with
  | none =>
    have noSplat : attr.transform memory content = none := by
      rw [BroadcastAttr.transform, inferred, Option.bind_none]
    have noDense : attr.transform otherMemory content.expanded = none := by
      rw [BroadcastAttr.transform, show content.expanded.type = content.type from rfl, inferred,
        Option.bind_none]
    rw [noSplat, noDense]
    exact iff_of_true trivial nofun
  | some outputType =>
    rw [transform_splat stored inferred memory]
    simp only [Option.some.injEq, forall_eq']
    rw [BroadcastAttr.transform, show content.expanded.type = content.type from rfl, inferred,
      Option.bind_some]
    dsimp only
    rw [show content.expanded.isSplat = false from rfl, if_neg Bool.false_ne_true,
      show content.expanded.storageElemType = content.storageElemType from rfl,
      ← extent_of_broadcast inferred]
    have length := @length_allocTempBuffer outputType otherMemory content.storageElemType
    generalize (allocTempBuffer otherMemory outputType content.storageElemType false).data =
      buffer at length ⊢
    by_cases accepted : content.storageElemType.size % 8 = 0 ∧
        content.type.memShape.getD (content.type.order.dimPos attr.axis) 0 ≠ 0 ∧
          attr.value % content.type.memShape.getD (content.type.order.dimPos attr.axis) 0 = 0
    · obtain ⟨whole, someExtent, divides⟩ := accepted
      have isSize : content.storageElemType.byteSize =
          some (content.storageElemType.size / 8) := if_pos whole
      have isLength := stored.length_data isSize
      rw [byteCount_eq whole] at length
      rw [copyFactor_expanded isSize isLength inferred someExtent divides length]
      refine iff_of_true ⟨rfl, rfl, fun coordinate inside => ?_⟩ ⟨whole, someExtent, divides⟩
      have dense :=
        @expanded_data ⟨outputType, content.storageElemType, true, content.data⟩ _ isSize
      refine (@elementAt_expanded ⟨outputType, content.storageElemType, true, content.data⟩ _ rfl
        isSize isLength _ inside).trans ?_
      unfold Content.elementAt
      rw [dense]
      rfl
    · refine iff_of_false ?_ accepted
      have rejected : attr.copyFactor content.expanded buffer = none := by
        unfold copyFactor
        dsimp only
        rw [show content.expanded.type = content.type from rfl,
          show content.expanded.storageElemType = content.storageElemType from rfl]
        split
        · rfl
        · rename_i divided
          have notWhole : ¬ content.storageElemType.size % 8 = 0 := fun whole =>
            accepted ⟨whole, fun zero => divided (.inl zero),
              not_not.mp fun rest => divided (.inr rest)⟩
          rw [ElemType.byteSize, if_neg notWhole]
          rfl
      rw [rejected]
      exact id

end

end NpuPlugin.ConstTransformations
