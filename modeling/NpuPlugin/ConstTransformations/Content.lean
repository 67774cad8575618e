/-
This file models the content of a constant, its type, how its elements are laid out in memory, and
how its values are read and copied to a buffer in the type of the constant. The outermost dimension
in memory comes first. The conversions of floating point numbers are parameters.
-/

import NpuPlugin.Library.Loop
import NpuPlugin.Library.MixedRadix

namespace NpuPlugin.ConstTransformations

open List MixedRadix Nat Option

/-! ### Orders of dimensions -/

/-- A permutation of dimensions: the dimension at each position. Affine maps that are permutations
are the same. -/
structure DimsOrder where
  dims : List Nat
  isPermutation : dims.Perm (List.range dims.length)
deriving DecidableEq

namespace DimsOrder

variable (order : DimsOrder)

def numDims : Nat := order.dims.length

def dimAt (position : Nat) : Nat := order.dims.getD position 0

def dimPos (dim : Nat) : Nat := order.dims.idxOf dim

def toMemoryOrder (values : List Nat) : List Nat := gather order.dims values

def toLogicalOrder (values : List Nat) : List Nat := gather (positions order.dims) values

def isIdentity : Bool := order.dims = List.range order.numDims

def NCHW : DimsOrder := ⟨[0, 1, 2, 3], by decide⟩
def NHWC : DimsOrder := ⟨[0, 2, 3, 1], by decide⟩
def NCDHW : DimsOrder := ⟨[0, 1, 2, 3, 4], by decide⟩
def NDHWC : DimsOrder := ⟨[0, 2, 3, 4, 1], by decide⟩
def NCWH : DimsOrder := ⟨[0, 1, 3, 2], by decide⟩

end DimsOrder

def applyPerm (memShape : List Nat) (memPerm : DimsOrder) : List Nat := gather memPerm.dims memShape

/-! ### Types -/

inductive Signedness
  | signless
  | signed
  | unsigned
deriving DecidableEq, Repr

inductive FloatKind
  | f64
  | f32
  | f16
  | bf16
  | f8E4M3FN
  | f8E5M2
deriving DecidableEq, Repr

scoped instance bit : NeZero 1 := ⟨Nat.one_ne_zero⟩
scoped instance nibble : NeZero 4 := ⟨Nat.succ_ne_zero 3⟩
scoped instance byte : NeZero 8 := ⟨Nat.succ_ne_zero 7⟩

inductive ScalarType
  | integer (signedness : Signedness) (width : ℕ+)
  | float (kind : FloatKind)
deriving DecidableEq, Repr

/-- A type that is quantized per axis has one zero point for each scale. -/
inductive ElemType
  | scalar (type : ScalarType)
  | quantized (storage : ScalarType) (zeroPoint : Int)
  | quantizedPerAxis (storage : ScalarType) (axis : Nat) (zeroPoints : List Int)
deriving DecidableEq, Repr

def ScalarType.width : ScalarType → Nat
  | .integer _ width => width
  | .float .f64 => 64
  | .float .f32 => 32
  | .float .f16 => 16
  | .float .bf16 => 16
  | .float .f8E4M3FN => 8
  | .float .f8E5M2 => 8

def ElemType.scalarType : ElemType → ScalarType
  | .scalar type => type
  | .quantized storage _ => storage
  | .quantizedPerAxis storage _ _ => storage

/-- `getElemTypeSize`, in bits -/
def ElemType.size (type : ElemType) : Nat := type.scalarType.width

theorem ElemType.size_pos (type : ElemType) : 0 < type.size := by
  unfold ElemType.size
  cases type.scalarType with
  | integer signedness width => exact width.pos
  | float kind => cases kind <;> decide

structure NDType where
  shape : List Nat
  order : DimsOrder
  elemType : ElemType
  matchesRank : order.numDims = shape.length
deriving DecidableEq

namespace NDType

variable (type : NDType)

def numElements : Nat := type.shape.prod

def memShape : List Nat := type.order.toMemoryOrder type.shape

/-- In elements. Types of constants are compact. -/
def memStrides : List Nat := strides type.memShape

/-- `getTotalAllocSize`, in bytes -/
def totalAllocSize : Nat := (type.numElements * type.elemType.size + 7) / 8

end NDType

/-- A type that is quantized per axis needs as many scales as there are positions on its axis. -/
def validateQuantElemType (shape : List Nat) : ElemType → Bool
  | .quantizedPerAxis _ axis zeroPoints =>
    axis < shape.length && zeroPoints.length = shape.getD axis 0
  | _ => true

def changeAxis (axis : Nat) : ElemType → ElemType
  | .quantizedPerAxis storage _ zeroPoints => .quantizedPerAxis storage axis zeroPoints
  | type => type

def NDType.changeShapeElemType (order : DimsOrder) (shape : List Nat) (elemType : ElemType) :
    Option NDType :=
  if sameRank : order.numDims = shape.length then
    if validateQuantElemType shape elemType then some ⟨shape, order, elemType, sameRank⟩ else none
  else none

theorem NDType.changeShapeElemType_eq_some {order : DimsOrder} {shape : List Nat}
    {elemType : ElemType} {type : NDType} :
    NDType.changeShapeElemType order shape elemType = some type ↔
      (order = type.order ∧ shape = type.shape ∧ elemType = type.elemType) ∧
        validateQuantElemType shape elemType = true := by
  unfold NDType.changeShapeElemType
  constructor
  · intro changed
    split at changed
    · split at changed
      · rename_i valid
        obtain rfl := some.inj changed
        exact ⟨⟨rfl, rfl, rfl⟩, valid⟩
      · cases changed
    · cases changed
  · rintro ⟨⟨rfl, rfl, rfl⟩, valid⟩
    rw [dif_pos type.matchesRank, if_pos valid]

/-! ### Indices in memory -/

/-- `getMemIndexND`, for a number of an element -/
def getMemIndexND (memIndex1D : Nat) (memShape : List Nat) : List Nat :=
  (memShape.foldr (fun mdSize (memIndexND, tempIndex1D) =>
    (tempIndex1D % mdSize :: memIndexND, (tempIndex1D - tempIndex1D % mdSize) / mdSize))
      ([], memIndex1D)).1

/-- It throws when the index is outside of the shape. -/
def getMemIndex1D (memIndexND memShape : List Nat) : Option Nat :=
  if memIndexND.length = memShape.length then
    ((memIndexND.zip memShape).foldr (fun (mdInd, mdSize) res => do
      let (memIndex1D, tempSize) ← res
      if mdInd < mdSize then some (memIndex1D + mdInd * tempSize, tempSize * mdSize) else none)
        (some (0, 1))).map Prod.fst
  else none

/-! ### Contents -/

/-- A splat stores one element. -/
structure Content where
  type : NDType
  storageElemType : ElemType
  isSplat : Bool
  data : List UInt8

def elementBits (data : List UInt8) (size number : Nat) : List (Option Bool) :=
  (List.range size).map fun bit => data[(number * size + bit) / 8]?.map fun byte =>
    byte.toNat.testBit ((number * size + bit) % 8)

namespace Content

variable (content : Content)

def dataSize : Nat :=
  (content.storageElemType.size * (if content.isSplat then 1 else content.type.numElements) + 7) / 8

/-- The stored element that belongs to a logical coordinate -/
def number (coordinate : List Nat) : Nat :=
  if content.isSplat then 0
  else flatten content.type.memShape (content.type.order.toMemoryOrder coordinate)

def elementAt (coordinate : List Nat) : List (Option Bool) :=
  elementBits content.data content.storageElemType.size (content.number coordinate)

end Content

/-! ### The numbers of elements -/

variable {memIndexND memShape : List Nat}

theorem getMemIndex1D_eq (inside : Inside memShape memIndexND) :
    getMemIndex1D memIndexND memShape = some (flatten memShape memIndexND) := by
  have folded : (memIndexND.zip memShape).foldr (fun (mdInd, mdSize) res => do
      let (memIndex1D, tempSize) ← res
      if mdInd < mdSize then some (memIndex1D + mdInd * tempSize, tempSize * mdSize) else none)
        (some (0, 1)) = some (flatten memShape memIndexND, memShape.prod) := by
    induction memShape generalizing memIndexND with
    | nil =>
      cases memIndexND with
      | nil => rfl
      | cons => exact inside.elim
    | cons mdSize memShape ih =>
      cases memIndexND with
      | nil => exact inside.elim
      | cons mdInd memIndexND =>
        rw [List.zip_cons_cons, List.foldr_cons, ih inside.2]
        dsimp only [bind_eq_bind, bind_some]
        rw [if_pos inside.1, List.prod_cons, mul_comm mdSize, add_comm]
        rfl
  unfold getMemIndex1D
  rw [if_pos (inside_iff_getD.mp inside).1, folded]
  rfl

theorem getMemIndex1D_eq_none (outside : ¬ Inside memShape memIndexND) :
    getMemIndex1D memIndexND memShape = none := by
  unfold getMemIndex1D
  split
  · rename_i same
    rw [map_eq_none_iff]
    induction memShape generalizing memIndexND with
    | nil =>
      rw [List.length_nil, List.length_eq_zero_iff] at same
      subst same
      exact absurd trivial outside
    | cons mdSize memShape ih =>
      obtain ⟨mdInd, memIndexND, rfl⟩ := List.exists_cons_of_length_eq_add_one same
      rw [List.zip_cons_cons, List.foldr_cons]
      by_cases rest : Inside memShape memIndexND
      · have first : ¬ mdInd < mdSize := fun less => outside ⟨less, rest⟩
        simp only [if_neg first, bind_eq_bind]
        simp
      · rw [ih rest (succ.inj same)]
        rfl
  · rfl

theorem getMemIndexND_flatten (inside : Inside memShape memIndexND) :
    getMemIndexND (flatten memShape memIndexND) memShape = memIndexND := by
  -- The fold takes the positions off the sum, and what is left belongs to the axes in front.
  have folded : ∀ rest, memShape.foldr (fun mdSize (memIndexND, tempIndex1D) =>
      (tempIndex1D % mdSize :: memIndexND, (tempIndex1D - tempIndex1D % mdSize) / mdSize))
        (([], flatten memShape memIndexND + rest * memShape.prod) : List Nat × Nat) =
          (memIndexND, rest) := by
    induction memShape generalizing memIndexND with
    | nil =>
      cases memIndexND with
      | nil => intro rest; simp [MixedRadix.flatten, strides, dot]
      | cons => exact inside.elim
    | cons mdSize memShape ih =>
      cases memIndexND with
      | nil => exact inside.elim
      | cons mdInd memIndexND =>
        intro rest
        have split : flatten (mdSize :: memShape) (mdInd :: memIndexND) +
            rest * (mdSize :: memShape).prod =
              flatten memShape memIndexND + (mdInd + rest * mdSize) * memShape.prod := by
          rw [List.prod_cons, MixedRadix.flatten, strides, dot]
          unfold MixedRadix.flatten
          ring
        rw [List.foldr_cons, split, ih inside.2]
        dsimp only
        rw [Nat.add_mul_mod_self_right, Nat.mod_eq_of_lt inside.1, Nat.add_sub_cancel_left,
          Nat.mul_div_cancel _ (zero_lt_of_lt inside.1)]
  have whole := folded 0
  rw [zero_mul, add_zero] at whole
  unfold getMemIndexND
  rw [whole]

/-! ### The bits of an element -/

section

variable {data other : List UInt8} {size number otherNumber : Nat}

theorem elementBits_head (positive : 0 < size)
    (same : elementBits data size number = elementBits other size otherNumber) :
    (data[number * size / 8]?.map fun byte => byte.toNat.testBit (number * size % 8)) =
      other[otherNumber * size / 8]?.map fun byte => byte.toNat.testBit (otherNumber * size % 8) :=
  List.map_inj_left.mp same 0 (List.mem_range.mpr positive)

theorem elementBits_of_bytes (wholeBytes : size % 8 = 0) (same : ∀ offset < size / 8,
      data[number * (size / 8) + offset]? = other[otherNumber * (size / 8) + offset]?) :
    elementBits data size number = elementBits other size otherNumber := by
  have split : 8 * (size / 8) = size := by
    have whole := div_add_mod size 8
    rwa [wholeBytes, add_zero] at whole
  have place : ∀ number bit, number * size + bit = 8 * (number * (size / 8)) + bit := by
    intro number bit
    rw [mul_left_comm, split]
  refine List.map_congr_left fun bit mem => ?_
  have below : bit / 8 < size / 8 := by
    have inside := List.mem_range.mp mem
    omega
  rw [place number, place otherNumber, mul_add_div (by decide), mul_add_div (by decide),
    mul_add_mod, mul_add_mod, same _ below]

def marked (size count only : Nat) : List UInt8 :=
  (List.range ((size * count + 7) / 8)).map fun byte =>
    UInt8.ofNat (Nat.ofBits fun bit : Fin 8 => (8 * byte + bit) / size = only)

variable {count only : Nat}

theorem marked_bit {position : Nat} :
    ((marked size count only)[position / 8]?.map fun byte => byte.toNat.testBit (position % 8)) =
      if position / 8 < (size * count + 7) / 8 then some (position / size = only : Bool)
      else none := by
  have small : ∀ bits : Fin 8 → Bool, (UInt8.ofNat (ofBits bits)).toNat = ofBits bits :=
    fun bits => (UInt8.toNat_ofNat' ..).trans (Nat.mod_eq_of_lt (ofBits_lt_two_pow bits))
  unfold marked
  rw [List.getElem?_map]
  split
  · rename_i inside
    rw [List.getElem?_range inside, map_some, map_some, small,
      testBit_ofBits_lt _ _ (mod_lt _ (by decide))]
    rw [div_add_mod]
  · rename_i outside
    rw [List.getElem?_eq_none (by rw [List.length_range]; exact not_lt.mp outside)]
    rfl

@[simp] theorem length_marked : (marked size count only).length = (size * count + 7) / 8 := by
  simp [marked]

theorem marked_bit_eq_true {element : Nat} (positive : 0 < size)
    (isSet : ((marked size count only)[element * size / 8]?.map fun byte =>
      byte.toNat.testBit (element * size % 8)) = some true) : element = only := by
  rw [marked_bit] at isSet
  split at isSet
  · rw [Nat.mul_div_cancel _ positive] at isSet
    exact of_decide_eq_true (some.inj isSet)
  · cases isSet

theorem head_of_marked (positive : 0 < size) (less : only < count)
    (same : elementBits data size number = elementBits (marked size count only) size only) :
    (data[number * size / 8]?.map fun byte => byte.toNat.testBit (number * size % 8)) =
      some true := by
  have inside : only * size / 8 < (size * count + 7) / 8 := by
    have room : (only + 1) * size ≤ count * size := Nat.mul_le_mul_right _ less
    rw [Nat.succ_mul, Nat.mul_comm count] at room
    omega
  rw [elementBits_head positive same, marked_bit, if_pos inside, Nat.mul_div_cancel _ positive,
    decide_eq_true rfl]

theorem eq_of_marked (positive : 0 < size) (less : only < count)
    (same : elementBits (marked size count only) size number =
      elementBits (marked size count only) size only) : number = only :=
  marked_bit_eq_true positive (head_of_marked positive less same)

end

/-! ### The types of values -/

inductive ValueType
  | uint8 | uint16 | uint32 | uint64
  | int8 | int16 | int32 | int64
  | float | double
  | float16 | bfloat16 | float8_e4m3 | float8_e5m2
deriving DecidableEq, Repr

namespace ValueType

def sizeof : ValueType → Nat
  | uint8 | int8 | float8_e4m3 | float8_e5m2 => 1
  | uint16 | int16 | float16 | bfloat16 => 2
  | uint32 | int32 | float => 4
  | uint64 | int64 | double => 8

def integerSign : ValueType → Option Bool
  | uint8 | uint16 | uint32 | uint64 => some false
  | int8 | int16 | int32 | int64 => some true
  | _ => none

def lowest (type : ValueType) (isSigned : Bool) : Int :=
  if isSigned then -2 ^ (8 * type.sizeof - 1) else 0

def highest (type : ValueType) (isSigned : Bool) : Int :=
  if isSigned then 2 ^ (8 * type.sizeof - 1) - 1 else 2 ^ (8 * type.sizeof) - 1

end ValueType

/-- The value of some bytes, the lowest one first -/
def littleEndian (bytes : List UInt8) : Nat :=
  bytes.foldr (fun byte value => byte.toNat + 256 * value) 0

def toBytes (size value : Nat) : List UInt8 :=
  (List.range size).map fun byte => UInt8.ofNat (value / 256 ^ byte)

def integerOf (isSigned : Bool) (bytes : List UInt8) : Int :=
  let value := littleEndian bytes
  if isSigned && 2 * value ≥ 256 ^ bytes.length then value - 256 ^ bytes.length else value

/-- The type of the values of an integer type, which for 4 bits are stored in bytes -/
def integerValueType (isSigned : Bool) (width : Nat) : Option ValueType :=
  if width = 8 ∨ width = 4 then some (if isSigned then .int8 else .uint8)
  else if width = 16 then some (if isSigned then .int16 else .uint16)
  else if width = 32 then some (if isSigned then .int32 else .uint32)
  else if width = 64 then some (if isSigned then .int64 else .uint64)
  else none

def quantizedValueType : ScalarType → Option ValueType
  | .integer signedness width =>
    if width = 8 ∨ width = 4 then integerValueType (signedness = .signed) width else none
  | .float .f8E4M3FN => some .float8_e4m3
  | .float .f8E5M2 => some .float8_e5m2
  | .float _ => none

def dispatchByElemType : ElemType → Option ValueType
  | .scalar (.integer signedness width) => integerValueType (signedness = .signed) width
  | .scalar (.float .f32) => some .float
  | .scalar (.float .f64) => some .double
  | .scalar (.float .f16) => some .float16
  | .scalar (.float .bf16) => some .bfloat16
  | .scalar (.float .f8E4M3FN) => some .float8_e4m3
  | .scalar (.float .f8E5M2) => some .float8_e5m2
  | .quantized storage _ => quantizedValueType storage
  | .quantizedPerAxis storage _ _ => quantizedValueType storage

/-! ### Conversions -/

/-- How the bytes of a value become those of a value of another type, or nothing when the conversion
throws. At least one of the types is a floating point type. -/
abbrev FloatConversion := ValueType → ValueType → List UInt8 → Option (List UInt8)

def cvt (convert : FloatConversion) (inT outT : ValueType) (value : List UInt8) :
    Option (List UInt8) :=
  match inT.integerSign, outT.integerSign with
  | some inSign, some outSign =>
    if outT.lowest outSign ≤ integerOf inSign value ∧
        integerOf inSign value ≤ outT.highest outSign then
      some (toBytes outT.sizeof (integerOf inSign value % 2 ^ (8 * outT.sizeof)).toNat)
    else none
  | _, _ =>
    if inT = outT ∧ (inT = .float ∨ inT = .double) then some value else convert inT outT value

/-! ### The values of a content -/

namespace Content

variable (convert : FloatConversion) (content : Content)

/-- An item of `getValues`: the storage takes whole bytes, and a splat stores one element. The check
is for the first byte, but a value that is only partly inside cannot be read either. -/
def getItem (outT : ValueType) (ind : Nat) : Option (List UInt8) :=
  let elemSize := content.storageElemType.size / 8
  (dispatchByElemType content.storageElemType).bind fun inT =>
    if content.storageElemType.size < 8 then none
    else if content.isSplat then
      if content.data.length = elemSize then cvt convert inT outT content.data else none
    else if ind * elemSize + inT.sizeof ≤ content.data.length then
      cvt convert inT outT ((content.data.drop (ind * elemSize)).take inT.sizeof)
    else none

/-- `getValues<int8_t>()[ind]` -/
def getInt8 (ind : Nat) : Option Int := (content.getItem convert .int8 ind).map (integerOf true)

def fillBuf (outT : ValueType) (buf : List UInt8) : Option (List UInt8) :=
  if content.type.numElements * outT.sizeof ≤ buf.length then
    ((List.range content.type.numElements).mapM (content.getItem convert outT)).map fun values =>
      values.flatten ++ buf.drop (content.type.numElements * outT.sizeof)
  else none

def isPowerOfTwo (val : Nat) : Bool := 0 < val && val &&& (val - 1) = 0

/-- The byte of a splat, where the value is shifted in until it is full. -/
def splatByte (elemSize : Nat) (subByteValue : Int) : UInt8 :=
  (List.range (8 / elemSize)).foldl (fun (byteValue : UInt8) _ =>
    UInt8.ofInt (byteValue.toNat * 2 ^ elemSize + subByteValue)) 0

def packByte (bits : Nat) (values : List Int) : UInt8 :=
  (values.foldl (fun ((byte, shift) : UInt8 × Nat) value =>
    (byte ||| UInt8.ofNat ((value % 2 ^ bits).toNat <<< shift), shift + bits)) (0, 0)).1

/-- The value of a splat of a type that does not take a whole byte -/
def subByteValue : Option Int :=
  if content.storageElemType = .scalar (.integer .signless 1) then
    content.data.head?.map fun front => ((front.toNat % 2 : Nat) : Int)
  else content.getInt8 convert 0

/-- The values packed into bytes, where a buffer of another size is not written -/
def packValues (elemPerByte targetSize : Nat) : Option (List UInt8) :=
  if elemPerByte ≤ 8 ∧ isPowerOfTwo elemPerByte then
    let numValues := content.type.numElements
    let numBytes := (numValues + elemPerByte - 1) / elemPerByte
    if numBytes ≤ targetSize then
      (List.range numBytes).mapM fun idx =>
        ((List.range elemPerByte).mapM fun elemIdx =>
          content.getInt8 convert (idx * elemPerByte + elemIdx)).map (packByte (8 / elemPerByte))
    else none
  else none

def copySubByteContent (targetData : List UInt8) (elemType : ElemType) : Option (List UInt8) :=
  if content.isSplat then
    (content.subByteValue convert).map fun subByteValue =>
      List.replicate targetData.length (splatByte elemType.size subByteValue)
  else if targetData.length < content.data.length then
    if content.data.length % targetData.length = 0 then
      let elemPerByte := content.type.numElements / targetData.length
      (content.packValues convert elemPerByte targetData.length).map fun bytes =>
        bytes ++ targetData.drop bytes.length
    else none
  else some (content.data ++ targetData.drop content.data.length)

def copyTo (targetData : List UInt8) : Option (List UInt8) :=
  let elemType := content.type.elemType
  if elemType.size < 8 then content.copySubByteContent convert targetData elemType
  else if content.isSplat = false ∧ elemType = content.storageElemType then
    if content.data.length ≤ targetData.length then
      some (content.data ++ targetData.drop content.data.length)
    else none
  else (dispatchByElemType elemType).bind fun outT => content.fillBuf convert outT targetData

end Content

/-! ### The length of what is copied -/

/-- Conversions of floating point numbers give values of their type. -/
def FloatConversion.Sized (convert : FloatConversion) : Prop :=
  ∀ inT outT value res, convert inT outT value = some res → res.length = outT.sizeof

section

variable {convert : FloatConversion} {content : Content} {inT outT : ValueType}
  {value res target : List UInt8}

@[simp] theorem length_toBytes {size number : Nat} : (toBytes size number).length = size := by
  simp [toBytes]

theorem length_cvt (sized : convert.Sized) (length : value.length = inT.sizeof)
    (converted : cvt convert inT outT value = some res) : res.length = outT.sizeof := by
  unfold cvt at converted
  split at converted
  · split at converted
    · rw [← some.inj converted, length_toBytes]
    · cases converted
  · split at converted
    · rename_i same
      rw [← some.inj converted, length, same.1]
    · exact sized _ _ _ _ converted

theorem width_of_integerValueType {isSigned : Bool} {width : Nat}
    (found : integerValueType isSigned width = some outT) (whole : 8 ≤ width) :
    width = 8 * outT.sizeof := by
  unfold integerValueType at found
  split at found
  · rw [← some.inj found]
    cases isSigned <;> simp only [ValueType.sizeof, Bool.false_eq_true, if_true, if_false] <;> omega
  · split at found
    · rw [← some.inj found]
      cases isSigned <;> assumption
    · split at found
      · rw [← some.inj found]
        cases isSigned <;> assumption
      · split at found
        · rw [← some.inj found]
          cases isSigned <;> assumption
        · cases found

theorem width_of_quantizedValueType {storage : ScalarType}
    (found : quantizedValueType storage = some outT) (whole : 8 ≤ storage.width) :
    storage.width = 8 * outT.sizeof := by
  cases storage with
  | integer signedness width =>
    unfold quantizedValueType at found
    dsimp only at found
    split at found
    · exact width_of_integerValueType found whole
    · cases found
  | float kind =>
    cases kind with
    | f8E4M3FN =>
      rw [← some.inj found]
      rfl
    | f8E5M2 =>
      rw [← some.inj found]
      rfl
    | _ => cases found

theorem size_of_dispatch {type : ElemType} (dispatched : dispatchByElemType type = some outT)
    (whole : 8 ≤ type.size) : type.size = 8 * outT.sizeof := by
  cases type with
  | scalar type =>
    cases type with
    | integer signedness width => exact width_of_integerValueType dispatched whole
    | float kind => cases kind <;> rw [← some.inj dispatched] <;> rfl
  | quantized storage => exact width_of_quantizedValueType dispatched whole
  | quantizedPerAxis storage => exact width_of_quantizedValueType dispatched whole

theorem length_getItem (sized : convert.Sized) {ind : Nat}
    (item : content.getItem convert outT ind = some res) : res.length = outT.sizeof := by
  obtain ⟨inT, dispatched, item⟩ := bind_eq_some_iff.mp item
  split at item
  · cases item
  · rename_i whole
    have size := size_of_dispatch dispatched (not_lt.mp whole)
    rw [size, Nat.mul_div_cancel_left _ (by decide)] at item
    split at item
    · split at item
      · rename_i isLength
        exact length_cvt sized isLength item
      · cases item
    · split at item
      · rename_i inside
        refine length_cvt sized ?_ item
        rw [List.length_take, length_drop]
        omega
      · cases item

theorem length_flatten {values : List (List UInt8)} {size : Nat}
    (each : ∀ value ∈ values, value.length = size) :
    values.flatten.length = values.length * size := by
  induction values with
  | nil => simp
  | cons value rest ih =>
    obtain ⟨first, others⟩ := forall_mem_cons.mp each
    rw [flatten_cons, length_append, ih others, first, length_cons, Nat.succ_mul, Nat.add_comm]

theorem length_fillBuf (sized : convert.Sized)
    (filled : content.fillBuf convert outT target = some res) : res.length = target.length := by
  unfold Content.fillBuf at filled
  split at filled
  · rename_i room
    obtain ⟨values, found, rfl⟩ := map_eq_some_iff.mp filled
    have count := (Attempt.mapM_eq_some_iff.mp found).length_eq
    rw [length_range] at count
    have each : ∀ value ∈ values, value.length = outT.sizeof := fun value mem => by
      obtain ⟨ind, -, item⟩ := Attempt.exists_of_mem_mapM found mem
      exact length_getItem sized item
    rw [length_append, length_drop, length_flatten each, ← count]
    omega
  · cases filled

theorem length_packValues {elemPerByte targetSize : Nat}
    (packed : content.packValues convert elemPerByte targetSize = some res) :
    res.length ≤ targetSize := by
  unfold Content.packValues at packed
  split at packed
  · dsimp only at packed
    split at packed
    · rename_i room
      have count := (Attempt.mapM_eq_some_iff.mp packed).length_eq
      rw [length_range] at count
      rwa [← count]
    · cases packed
  · cases packed

theorem length_copyTo (sized : convert.Sized)
    (copied : content.copyTo convert target = some res) : res.length = target.length := by
  have overwritten : ∀ bytes : List UInt8, bytes.length ≤ target.length →
      (bytes ++ target.drop bytes.length).length = target.length := fun bytes room => by
    rw [length_append, length_drop]
    omega
  unfold Content.copyTo at copied
  dsimp only at copied
  split at copied
  · unfold Content.copySubByteContent at copied
    split at copied
    · obtain ⟨subByteValue, -, rfl⟩ := map_eq_some_iff.mp copied
      exact length_replicate
    · split at copied
      · split at copied
        · obtain ⟨bytes, packed, rfl⟩ := map_eq_some_iff.mp copied
          exact overwritten bytes (length_packValues packed)
        · cases copied
      · rename_i small
        obtain rfl := some.inj copied
        exact overwritten _ (not_lt.mp small)
  · split at copied
    · split at copied
      · rename_i room
        obtain rfl := some.inj copied
        exact overwritten _ room
      · cases copied
    · obtain ⟨outT, -, filled⟩ := bind_eq_some_iff.mp copied
      exact length_fillBuf sized filled

/-! ### The bytes of a splat -/

theorem getItem_splat (splat : content.isSplat = true) (ind : Nat) :
    content.getItem convert outT ind = content.getItem convert outT 0 := by
  unfold Content.getItem
  simp only [splat, if_true]

theorem totalAllocSize_of_dispatch
    (dispatched : dispatchByElemType content.type.elemType = some outT)
    (whole : 8 ≤ content.type.elemType.size) :
    content.type.totalAllocSize = content.type.numElements * outT.sizeof := by
  rw [NDType.totalAllocSize, size_of_dispatch dispatched whole, Nat.mul_left_comm]
  omega

theorem fillBuf_splat (splat : content.isSplat = true) :
    (List.range content.type.numElements).mapM (content.getItem convert outT) =
      if content.type.numElements = 0 then some [] else
        (content.getItem convert outT 0).map (List.replicate content.type.numElements) := by
  rw [Attempt.mapM_congr fun ind _ => getItem_splat splat ind]
  cases count : content.type.numElements with
  | zero => rfl
  | succ elements =>
    cases content.getItem convert outT 0 with
    | none =>
      rw [range_succ_eq_map, mapM_cons]
      rfl
    | some value =>
      rw [Attempt.mapM_replicate, length_range]
      rfl

theorem splat_copyTo (sized : convert.Sized) (splat : content.isSplat = true)
    (length : target.length = content.type.totalAllocSize)
    (copied : content.copyTo convert target = some res) :
    ∃ count value, res = (List.replicate count value).flatten ∧
      (value.length = 1 ∨ value.length = 2 ∨ value.length = 4 ∨ value.length = 8) := by
  unfold Content.copyTo at copied
  dsimp only at copied
  split at copied
  · unfold Content.copySubByteContent at copied
    rw [if_pos splat] at copied
    obtain ⟨subByteValue, -, rfl⟩ := map_eq_some_iff.mp copied
    exact ⟨target.length, [Content.splatByte content.type.elemType.size subByteValue],
      flatten_replicate_singleton.symm, .inl rfl⟩
  · rename_i whole
    rw [if_neg fun both => Bool.noConfusion (splat.symm.trans both.1)] at copied
    obtain ⟨outT, dispatched, filled⟩ := bind_eq_some_iff.mp copied
    have total := totalAllocSize_of_dispatch dispatched (not_lt.mp whole)
    unfold Content.fillBuf at filled
    rw [length, total, if_pos le_rfl, fillBuf_splat splat, ← total, ← length, drop_length]
      at filled
    split at filled
    · obtain rfl := some.inj filled
      exact ⟨0, [0], rfl, .inl rfl⟩
    · obtain ⟨values, found, rfl⟩ := map_eq_some_iff.mp filled
      obtain ⟨value, item, rfl⟩ := map_eq_some_iff.mp found
      refine ⟨content.type.numElements, value, append_nil _, ?_⟩
      rw [length_getItem sized item]
      cases outT <;> simp [ValueType.sizeof]

end

end NpuPlugin.ConstTransformations
