/-
This file models how weights are made sparse: the values that are not the zero point are packed
channel by channel, with a map of the elements that are kept, and the weights can be rebuilt from
both. How an integer is rounded to a floating point number is a parameter.
-/

import NpuPlugin.Library.AlignedBlocks
import NpuPlugin.Utils.Numeric
import NpuPlugin.ConstTransformations.Splat

namespace NpuPlugin.ConstTransformations

open AlignedBlocks Copies Function List Nat

/-! ### Equal values -/

namespace Float32

def isNaN (bits : Nat) : Bool := 0x7F800000 < bits % 2 ^ 31

/-- `==` of two floats by their bits: the zeros are equal, and what is no number equals nothing. -/
def equal (first second : Nat) : Bool :=
  !isNaN first && !isNaN second &&
    (first == second || (first % 2 ^ 31 == 0 && second % 2 ^ 31 == 0))

end Float32

namespace Float16

/-- The loop that normalizes a fraction, which is not zero and so is shifted at most ten times -/
def normalize : Nat → Nat → Nat → Nat × Nat
  | 0, fexp, frac => (fexp, frac)
  | shifts + 1, fexp, frac =>
    if frac / 2 ^ 10 % 2 = 0 then normalize shifts (fexp - 1) (2 * frac) else (fexp, frac)

/-- `float16::operator float` -/
def toFloat (value : Nat) : Nat :=
  let exp := value / 2 ^ 10 % 2 ^ 5
  let frac := value % 2 ^ 10
  let (fexp, frac) :=
    if exp = 0 then
      if frac = 0 then (0, frac)
      else
        let (fexp, frac) := normalize 10 (exp + 127 - 15 + 1) frac
        (fexp, frac % 2 ^ 10)
    else if exp = 0x1F then (0xFF, frac)
    else (exp + 127 - 15, frac)
  value / 2 ^ 15 % 2 * 2 ^ 31 + fexp * 2 ^ 23 + frac * 2 ^ 13

end Float16

namespace Float8E4M3

/-- `f8_to_float_lut` as the bits of its floats -/
def lut : List Nat :=
  [ 0x00000000, 0x3B000000, 0x3B800000, 0x3BC00000, 0x3C000000, 0x3C200000, 0x3C400000, 0x3C600000,
    0x3C800000, 0x3C900000, 0x3CA00000, 0x3CB00000, 0x3CC00000, 0x3CD00000, 0x3CE00000, 0x3CF00000,
    0x3D000000, 0x3D100000, 0x3D200000, 0x3D300000, 0x3D400000, 0x3D500000, 0x3D600000, 0x3D700000,
    0x3D800000, 0x3D900000, 0x3DA00000, 0x3DB00000, 0x3DC00000, 0x3DD00000, 0x3DE00000, 0x3DF00000,
    0x3E000000, 0x3E100000, 0x3E200000, 0x3E300000, 0x3E400000, 0x3E500000, 0x3E600000, 0x3E700000,
    0x3E800000, 0x3E900000, 0x3EA00000, 0x3EB00000, 0x3EC00000, 0x3ED00000, 0x3EE00000, 0x3EF00000,
    0x3F000000, 0x3F100000, 0x3F200000, 0x3F300000, 0x3F400000, 0x3F500000, 0x3F600000, 0x3F700000,
    0x3F800000, 0x3F900000, 0x3FA00000, 0x3FB00000, 0x3FC00000, 0x3FD00000, 0x3FE00000, 0x3FF00000,
    0x40000000, 0x40100000, 0x40200000, 0x40300000, 0x40400000, 0x40500000, 0x40600000, 0x40700000,
    0x40800000, 0x40900000, 0x40A00000, 0x40B00000, 0x40C00000, 0x40D00000, 0x40E00000, 0x40F00000,
    0x41000000, 0x41100000, 0x41200000, 0x41300000, 0x41400000, 0x41500000, 0x41600000, 0x41700000,
    0x41800000, 0x41900000, 0x41A00000, 0x41B00000, 0x41C00000, 0x41D00000, 0x41E00000, 0x41F00000,
    0x42000000, 0x42100000, 0x42200000, 0x42300000, 0x42400000, 0x42500000, 0x42600000, 0x42700000,
    0x42800000, 0x42900000, 0x42A00000, 0x42B00000, 0x42C00000, 0x42D00000, 0x42E00000, 0x42F00000,
    0x43000000, 0x43100000, 0x43200000, 0x43300000, 0x43400000, 0x43500000, 0x43600000, 0x43700000,
    0x43800000, 0x43900000, 0x43A00000, 0x43B00000, 0x43C00000, 0x43D00000, 0x43E00000, 0x7FC00000
  ]

/-- `float8_e4m3::operator float` -/
def toFloat (value : Nat) : Nat := lut.getD (value % 2 ^ 7) 0 + value / 2 ^ 7 % 2 * 2 ^ 31

end Float8E4M3

/-- `static_cast<float>` of a value with these bits, of a floating point type of weights -/
def ValueType.toFloat : ValueType → Nat → Nat
  | .bfloat16, bits => bits * 2 ^ 16
  | .float16, bits => Float16.toFloat bits
  | .float8_e5m2, bits => Float16.toFloat (bits * 2 ^ 8)
  | .float8_e4m3, bits => Float8E4M3.toFloat bits
  | _, bits => bits

/-- `==` of two values of a type -/
def ValueType.equal (type : ValueType) (first second : List UInt8) : Bool :=
  if type.integerSign.isSome then first == second
  else Float32.equal (type.toFloat (littleEndian first)) (type.toFloat (littleEndian second))

/-! ### The value that is left out -/

/-- How integers become floating point numbers: the bits of the nearest float, whether this is the
same number, and the constructors of the other types. -/
structure FloatCasts where
  toFloat : Int → Nat
  isExact : Int → Bool
  construct : ValueType → Nat → List UInt8
  length_construct : ∀ type bits, (construct type bits).length = type.sizeof

namespace FloatCasts

variable (casts : FloatCasts)

/-- `StorageType(value)` -/
def cast (type : ValueType) (value : Int) : List UInt8 :=
  if type.integerSign.isSome then toBytes type.sizeof (value % 2 ^ (8 * type.sizeof)).toNat
  else if type = .float then toBytes 4 (casts.toFloat value)
  else casts.construct type (casts.toFloat value)

/-- `checked_cast`, which throws when the number is not a value of the type -/
def checkedCast (type : ValueType) (value : Int) : Option (List UInt8) :=
  match type.integerSign with
  | some isSigned =>
    if type.lowest isSigned ≤ value ∧ value ≤ type.highest isSigned then
      some (casts.cast type value)
    else none
  | none => if casts.isExact value then some (casts.cast type value) else none

end FloatCasts

def normalizeQuantStorageType : ScalarType → Option ScalarType
  | .integer signedness width =>
    some (.integer (if signedness = .signed then .signed else .unsigned) width)
  | .float .f8E4M3FN => some (.float .f8E4M3FN)
  | .float .f8E5M2 => some (.float .f8E5M2)
  | .float _ => none

/-- `getSparsifyValue`, which also gives the type of the values -/
def getSparsifyValue : ElemType → Option (ScalarType × Int)
  | .scalar type => some (type, 0)
  | .quantized storage zeroPoint => (normalizeQuantStorageType storage).map fun type =>
      (type, zeroPoint)
  | .quantizedPerAxis storage _ zeroPoints => (normalizeQuantStorageType storage).bind fun type =>
      if zeroPoints.tail = zeroPoints.dropLast then
        zeroPoints.head?.map fun zeroPoint => (type, zeroPoint)
      else none

def weightsValueType : ScalarType → Option ValueType
  | .integer .signed width => if width = 8 then some .int8 else none
  | .integer .unsigned width => if width = 8 then some .uint8 else none
  | .integer .signless _ => none
  | .float .f16 => some .float16
  | .float .bf16 => some .bfloat16
  | .float .f32 => some .float
  | .float .f8E5M2 => some .float8_e5m2
  | .float .f8E4M3FN => some .float8_e4m3
  | .float .f64 => none

/-- The type that the weights are read as and the value that is left out -/
def sparseValues (elemType : ElemType) : Option (ValueType × Int) :=
  (getSparsifyValue elemType).bind fun (type, sparsifyValue) =>
    (weightsValueType type).map fun valueType => (valueType, sparsifyValue)

/-! ### The numbers of kept elements -/

section

variable (convert : FloatConversion) (casts : FloatCasts) (memory : Nat → UInt8) (type : ValueType)
  (content : Content)

def channelValues (workloadSize oc : Nat) : Option (List (List UInt8)) :=
  (List.range workloadSize).mapM fun index =>
    content.getItem convert type (oc * workloadSize + index)

def countValue (sparsifyValue : Int) (content : Content) : Option (List Nat) :=
  match content.type.shape with
  | [OC, IC, KY, KX] =>
    (casts.checkedCast type sparsifyValue).bind fun castedSparsifyValue =>
      (List.range OC).mapM fun oc =>
        (channelValues convert type content (IC * KY * KX) oc).map fun values =>
          values.countP fun inputValue => !type.equal inputValue castedSparsifyValue
  | _ => none

def countNonSparseElementsPerOC (elemType : ElemType) : Option (List Nat) :=
  (sparseValues elemType).bind fun (type, sparsifyValue) =>
    countValue convert casts type sparsifyValue content

/-! ### The kept values -/

def VPU_WEIGHT_SET_BYTE_ALIGNMENT : Nat := 16

def alignedByteSize (byteSize : Nat) : Nat :=
  (Signed.alignValUp byteSize VPU_WEIGHT_SET_BYTE_ALIGNMENT).toNat

def uint8Type : ElemType := .scalar (.integer .unsigned 8)

def compressType (inputType : NDType) (numElemsPerOC : List Nat) : Option NDType :=
  inputType.elemType.byteSize.bind fun elemByteSize =>
    let totalByteSize := (numElemsPerOC.map fun num => alignedByteSize (num * elemByteSize)).sum
    NDType.changeShapeElemType inputType.order [totalByteSize, 1, 1, 1] uint8Type

/-- What happens to one value, with the place of the next one that is kept -/
def sparsifyValueStep (castedSparsifyValue : List UInt8)
    (state : Nat × List UInt8) (inputValue : List UInt8) : Option (Nat × List UInt8) :=
  if type.equal inputValue castedSparsifyValue then some state
  else (copyBytes inputValue 0 type.sizeof state.2 (state.1 * type.sizeof)).map fun outBuf =>
    (state.1 + 1, outBuf)

def alignOutputIndex (byteSize outputIndex : Nat) : Nat :=
  let outputIndexByte := outputIndex * byteSize
  if outputIndexByte % VPU_WEIGHT_SET_BYTE_ALIGNMENT ≠ 0 then
    alignedByteSize outputIndexByte / byteSize
  else outputIndex

def sparsifyChannel (castedSparsifyValue : List UInt8)
    (workloadSize : Nat) (state : Nat × List UInt8) (oc : Nat) : Option (Nat × List UInt8) :=
  (channelValues convert type content workloadSize oc).bind fun values =>
    (values.foldlM (sparsifyValueStep type castedSparsifyValue) state).map
      fun (outputIndex, buffer) => (alignOutputIndex type.sizeof outputIndex, buffer)

def sparsify (sparsifyValue : Int) (outputType : NDType) : Option Content :=
  let output := allocTempBuffer memory outputType outputType.elemType false
  (output.fillWithZero convert).bind fun outBuf =>
    match content.type.shape with
    | [OC, IC, KY, KX] =>
      (casts.checkedCast type sparsifyValue).bind fun castedSparsifyValue =>
        ((List.range OC).foldlM (sparsifyChannel convert type content castedSparsifyValue
          (IC * KY * KX)) (0, outBuf)).map fun (_, data) => { output with data := data }
    | _ => none

structure SparsifyAttr where
  compressOutputType : Bool
  numActualElements : Option (List Nat)

namespace SparsifyAttr

def inferOutputType (attr : SparsifyAttr) (inputType : NDType) : Option NDType :=
  if attr.compressOutputType then
    attr.numActualElements.bind fun numElemsPerOC => compressType inputType numElemsPerOC
  else some inputType

def transform (attr : SparsifyAttr) (input : Content) : Option Content :=
  let inputType := input.type
  (match attr.numActualElements with
    | some numElemsPerOC => some numElemsPerOC
    | none => countNonSparseElementsPerOC convert casts input inputType.elemType).bind
      fun numElemsPerOC => (compressType inputType numElemsPerOC).bind fun outputType =>
        (sparseValues inputType.elemType).bind fun (type, sparsifyValue) =>
          sparsify convert casts memory type input sparsifyValue outputType

end SparsifyAttr

/-! ### The map -/

def inferWeightsSparsityMapShape (dataShape : List Nat) : Option (List Nat) :=
  if dataShape.length = 4 then
    let workloadSize := (dataShape.drop 1).prod
    let alignment := 16 * 8
    some [dataShape.getD 0 0, 1, 1, (Signed.alignValUp workloadSize alignment).toNat]
  else none

def sparsityMapByte (type : ValueType) (content : Content) (sparsifyValue : Int)
    (byteStart : Nat) : Option UInt8 :=
  (List.range 8).foldlM (fun byteValue bitShift =>
    (content.getItem convert type (byteStart + bitShift)).map fun value =>
      if type.equal value (casts.cast type sparsifyValue) then byteValue
      else byteValue ||| UInt8.ofNat (1 <<< bitShift)) 0

def sparsityMapChannel (type : ValueType) (content : Content) (sparsifyValue : Int)
    (inputWorkloadSize outputWorkloadSize : Nat) (outputBuffer : List UInt8) (oc : Nat) :
    Option (List UInt8) :=
  let inStartIdx := oc * inputWorkloadSize
  let outIdx := oc * outputWorkloadSize / 8
  (List.range ((inputWorkloadSize + 7) / 8)).foldlM (fun outputBuffer step =>
    (sparsityMapByte convert casts type content sparsifyValue (inStartIdx + 8 * step)).bind
      fun byteValue => copyBytes [byteValue] 0 1 outputBuffer (outIdx + step)) outputBuffer

def generateSparsityMap (type : ValueType) (content : Content) (sparsifyValue : Int)
    (outputType : NDType) : Option Content :=
  let output := allocTempBuffer memory outputType (.scalar (.integer .unsigned 1)) false
  (output.fillWithZero convert).bind fun outputBuffer =>
    let inputWorkloadSize := (content.type.shape.drop 1).prod
    let outputWorkloadSize := (outputType.shape.drop 1).prod
    let numOC := outputType.shape.getD 0 0
    ((List.range numOC).foldlM (sparsityMapChannel convert casts type content sparsifyValue
      inputWorkloadSize outputWorkloadSize) outputBuffer).map fun data =>
        { output with data := data }

namespace GetSparsityMapAttr

def inferOutputType (input : NDType) : Option NDType :=
  (inferWeightsSparsityMapShape input.shape).bind fun newShape =>
    (NDType.changeShapeElemType input.order newShape input.elemType).bind fun outputType =>
      let order := if outputType.order.isIdentity then outputType.order else .NCHW
      NDType.changeShapeElemType order newShape (.scalar (.integer .signless 1))

def transform (input : Content) : Option Content :=
  (inferOutputType input.type).bind fun outputType =>
    (sparseValues input.type.elemType).bind fun (type, sparsifyValue) =>
      generateSparsityMap convert casts memory type input sparsifyValue outputType

end GetSparsityMapAttr

end

/-! ### What equal values share -/

section

variable {type : ValueType} {first second : List UInt8}

theorem littleEndian_lt (bytes : List UInt8) : littleEndian bytes < 256 ^ bytes.length := by
  induction bytes with
  | nil => decide
  | cons byte bytes ih =>
    have below := byte.toNat_lt
    show byte.toNat + 256 * littleEndian bytes < 256 ^ (bytes.length + 1)
    omega

theorem littleEndian_injective (length : first.length = second.length)
    (same : littleEndian first = littleEndian second) : first = second := by
  induction first generalizing second with
  | nil => exact (length_eq_zero_iff.mp length.symm).symm
  | cons byte bytes ih =>
    cases second with
    | nil => cases length
    | cons other others =>
      have below := byte.toNat_lt
      have otherBelow := other.toNat_lt
      have digits : byte.toNat + 256 * littleEndian bytes =
          other.toNat + 256 * littleEndian others := same
      have sameByte : byte = other := UInt8.toNat_inj.mp (by omega)
      rw [sameByte, ih (succ.inj length) (by omega)]

variable {one other value : Nat}

namespace Float16

theorem normalize_eq (shifts fexp frac : Nat) (pos : 0 < frac) (small : frac < 2 ^ 11)
    (enough : 2 ^ 10 ≤ 2 ^ shifts * frac) :
    ∃ count ≤ shifts, normalize shifts fexp frac = (fexp - count, 2 ^ count * frac) ∧
      2 ^ 10 ≤ 2 ^ count * frac ∧ 2 ^ count * frac < 2 ^ 11 := by
  induction shifts generalizing fexp frac with
  | zero => exact ⟨0, le_rfl, by simp [normalize], enough, by simpa using small⟩
  | succ shifts ih =>
    unfold normalize
    split
    · rename_i low
      obtain ⟨count, ordered, found, bounds⟩ := ih (fexp - 1)
        (2 * frac) (by omega) (by omega) (by rwa [← mul_assoc, ← pow_succ])
      rw [← mul_assoc, ← pow_succ] at found bounds
      exact ⟨count + 1, succ_le_succ ordered,
        by rw [found, Nat.sub_sub, Nat.add_comm 1], bounds⟩
    · exact ⟨0, zero_le _, by simp, by simp only [pow_zero, one_mul]; omega,
        by simpa using small⟩

theorem toFloat_eq (fits : value < 2 ^ 16) : ∃ fexp < 2 ^ 8, ∃ frac < 2 ^ 10,
    toFloat value = value / 2 ^ 15 * 2 ^ 31 + fexp * 2 ^ 23 + frac * 2 ^ 13 ∧
    (value % 2 ^ 15 = 0 ∧ fexp = 0 ∧ frac = 0 ∨
      (∃ count, 1 ≤ count ∧ count ≤ 10 ∧ fexp = 113 - count ∧
        frac + 2 ^ 10 = 2 ^ count * (value % 2 ^ 15)) ∨
      113 ≤ fexp ∧ fexp < 143 ∧ value % 2 ^ 15 = (fexp - 112) * 2 ^ 10 + frac ∨
      fexp = 255 ∧ value % 2 ^ 15 = 31 * 2 ^ 10 + frac) := by
  have sign : value / 2 ^ 15 % 2 = value / 2 ^ 15 := mod_eq_of_lt (by omega)
  unfold toFloat
  rw [sign]
  by_cases subnormal : value / 2 ^ 10 % 2 ^ 5 = 0
  · by_cases zero : value % 2 ^ 10 = 0
    · exact ⟨0, by decide, 0, by decide, by simp only [subnormal, zero, if_true],
        .inl ⟨by omega, rfl, rfl⟩⟩
    · obtain ⟨count, ordered, found, lower, upper⟩ := normalize_eq 10 113
        (value % 2 ^ 10) (by omega) (by omega) (by omega)
      have shifted : 1 ≤ count := by
        by_contra none
        obtain rfl := Nat.lt_one_iff.mp (not_le.mp none)
        omega
      have magnitude : value % 2 ^ 15 = value % 2 ^ 10 := by omega
      refine ⟨113 - count, by omega, 2 ^ count * (value % 2 ^ 10) - 2 ^ 10, by omega, ?_,
        .inr (.inl ⟨count, shifted, ordered, rfl, by rw [magnitude]; omega⟩)⟩
      have fraction : 2 ^ count * (value % 2 ^ 10) % 2 ^ 10 =
          2 ^ count * (value % 2 ^ 10) - 2 ^ 10 := by omega
      simp only [subnormal, zero, if_true, if_false]
      rw [show (0 + 127 - 15 + 1 : Nat) = 113 from rfl, found]
      rw [fraction]
  · by_cases largest : value / 2 ^ 10 % 2 ^ 5 = 0x1F
    · exact ⟨0xFF, by decide, value % 2 ^ 10, by omega,
        by simp only [if_neg subnormal, if_pos largest], .inr (.inr (.inr ⟨rfl, by omega⟩))⟩
    · exact ⟨value / 2 ^ 10 % 2 ^ 5 + 127 - 15, by omega, value % 2 ^ 10, by omega,
        by simp only [if_neg subnormal, if_neg largest], .inr (.inr (.inl (by omega)))⟩

theorem toFloat_injective (fits : one < 2 ^ 16) (otherFits : other < 2 ^ 16)
    (same : toFloat one = toFloat other) : one = other := by
  obtain ⟨fexp, below, frac, small, float, kind⟩ := toFloat_eq fits
  obtain ⟨otherExp, otherBelow, otherFrac, otherSmall, otherFloat, otherKind⟩ :=
    toFloat_eq otherFits
  have sameFrac : frac = otherFrac := by omega
  have sameExp : fexp = otherExp := by omega
  subst sameFrac sameExp
  have sameMagnitude : one % 2 ^ 15 = other % 2 ^ 15 := by
    rcases kind with zero | ⟨count, atLeast, atMost, isExp, fraction⟩ | normal | rest
    · rcases otherKind with _ | ⟨_, _, _, _, _⟩ | _ | _ <;> omega
    · rcases otherKind with _ | ⟨otherCount, _, _, otherIsExp, otherFraction⟩ | _ | _
      · omega
      · obtain rfl : count = otherCount := by omega
        exact Nat.eq_of_mul_eq_mul_left (Nat.two_pow_pos count)
          (fraction.symm.trans otherFraction)
      · omega
      · omega
    · rcases otherKind with _ | ⟨_, _, _, _, _⟩ | _ | _ <;> omega
    · rcases otherKind with _ | ⟨_, _, _, _, _⟩ | _ | _ <;> omega
  omega

theorem zero_of_toFloat (fits : value < 2 ^ 16) (zero : toFloat value % 2 ^ 31 = 0) :
    value % 2 ^ 15 = 0 := by
  obtain ⟨fexp, below, frac, small, float, kind⟩ := toFloat_eq fits
  rcases kind with isZero | ⟨_, _, _, _, _⟩ | _ | _ <;> omega

end Float16

namespace Float8E4M3

set_option maxRecDepth 4000 in
theorem lut_increasing : lut.Pairwise (· < ·) := isChain_iff_pairwise.mp (by decide)

set_option maxRecDepth 4000 in
theorem lut_all_lt : ∀ bits ∈ lut, bits < 2 ^ 31 := by decide

theorem lut_lt (index : Nat) : lut.getD index 0 < 2 ^ 31 := by
  by_cases inside : index < lut.length
  · rw [getD_eq_getElem _ _ inside]
    exact lut_all_lt _ (getElem_mem inside)
  · rw [getD_eq_default _ _ (not_lt.mp inside)]
    decide

set_option maxRecDepth 4000 in
theorem lut_injective (inside : one < 2 ^ 7) (otherInside : other < 2 ^ 7)
    (same : lut.getD one 0 = lut.getD other 0) : one = other := by
  have length : lut.length = 2 ^ 7 := rfl
  rw [getD_eq_getElem _ _ (inside.trans_eq length.symm),
    getD_eq_getElem _ _ (otherInside.trans_eq length.symm)] at same
  exact lut_increasing.nodup.getElem_inj_iff.mp same

theorem toFloat_injective (fits : one < 2 ^ 8) (otherFits : other < 2 ^ 8)
    (same : toFloat one = toFloat other) : one = other := by
  unfold toFloat at same
  have below := lut_lt (one % 2 ^ 7)
  have otherBelow := lut_lt (other % 2 ^ 7)
  have sameEntry : one % 2 ^ 7 = other % 2 ^ 7 :=
    lut_injective (mod_lt _ (by decide)) (mod_lt _ (by decide)) (by omega)
  omega

theorem zero_of_toFloat (zero : toFloat value % 2 ^ 31 = 0) : value % 2 ^ 7 = 0 := by
  unfold toFloat at zero
  have below := lut_lt (value % 2 ^ 7)
  have noEntry : lut.getD (value % 2 ^ 7) 0 = 0 := by omega
  have inside : value % 2 ^ 7 < 2 ^ 7 := mod_lt _ (by decide)
  exact lut_injective inside (Nat.two_pow_pos 7) (noEntry.trans rfl)

end Float8E4M3

namespace ValueType

theorem toFloat_injective (fits : one < 256 ^ type.sizeof) (otherFits : other < 256 ^ type.sizeof)
    (same : type.toFloat one = type.toFloat other) : one = other := by
  cases type with
  | float16 => exact Float16.toFloat_injective fits otherFits same
  | bfloat16 => exact eq_of_mul_eq_mul_right (by decide) same
  | float8_e5m2 =>
    have below : one * 2 ^ 8 < 2 ^ 16 := mul_lt_mul_of_pos_right fits (by decide)
    have otherBelow : other * 2 ^ 8 < 2 ^ 16 := mul_lt_mul_of_pos_right otherFits (by decide)
    exact eq_of_mul_eq_mul_right (by decide) (Float16.toFloat_injective below otherBelow same)
  | float8_e4m3 => exact Float8E4M3.toFloat_injective fits otherFits same
  | _ => exact same

/-- Neither bit but the sign is set. -/
def IsZero (type : ValueType) (value : List UInt8) : Prop :=
  littleEndian value % 2 ^ (8 * type.sizeof - 1) = 0

/-- The same value, or two zeros of a floating point type. -/
def SameUpToSign (type : ValueType) (first second : List UInt8) : Prop :=
  first = second ∨ type.integerSign = none ∧ type.IsZero first ∧ type.IsZero second

theorem isZero_of_toFloat (notDouble : type ≠ .double) (notInteger : type.integerSign = none)
    {value : List UInt8} (length : value.length = type.sizeof)
    (zero : type.toFloat (littleEndian value) % 2 ^ 31 = 0) : type.IsZero value := by
  have fits := littleEndian_lt value
  rw [length] at fits
  cases type with
  | float16 => exact Float16.zero_of_toFloat fits zero
  | bfloat16 =>
    have shifted : littleEndian value * 2 ^ 16 % 2 ^ 31 = 0 := zero
    show littleEndian value % 2 ^ 15 = 0
    omega
  | float8_e5m2 =>
    have below : littleEndian value * 2 ^ 8 < 2 ^ 16 := mul_lt_mul_of_pos_right fits (by decide)
    have shifted := Float16.zero_of_toFloat below zero
    show littleEndian value % 2 ^ 7 = 0
    omega
  | float8_e4m3 => exact Float8E4M3.zero_of_toFloat zero
  | float => exact zero
  | double => exact absurd rfl notDouble
  | _ => cases notInteger

/-- Values of weights that compare equal are the same up to the sign of a zero. -/
theorem sameUpToSign_of_equal (notDouble : type ≠ .double) (length : first.length = type.sizeof)
    (otherLength : second.length = type.sizeof) (same : type.equal first second = true) :
    type.SameUpToSign second first := by
  unfold equal at same
  split at same
  · exact .inl (beq_iff_eq.mp same).symm
  · rename_i notInteger
    have isFloat : type.integerSign = none := Option.not_isSome_iff_eq_none.mp notInteger
    simp only [Float32.equal, Bool.and_eq_true, Bool.or_eq_true, beq_iff_eq] at same
    obtain ⟨-, sameBits | ⟨zero, otherZero⟩⟩ := same
    · have fits := littleEndian_lt first
      have otherFits := littleEndian_lt second
      rw [length] at fits
      rw [otherLength] at otherFits
      exact .inl (littleEndian_injective (length.trans otherLength.symm)
        (toFloat_injective fits otherFits sameBits)).symm
    · exact .inr ⟨isFloat, isZero_of_toFloat notDouble isFloat otherLength otherZero,
        isZero_of_toFloat notDouble isFloat length zero⟩

end ValueType

end

/-! ### Rebuilding -/

def bitAt (map : List UInt8) (element : Nat) : Bool :=
  (map.getD (element / 8) 0).toNat.testBit (element % 8)

def channelStart (byteSize : Nat) (counts : List Nat) (oc : Nat) : Nat :=
  ((counts.take oc).map fun count => alignedByteSize (count * byteSize)).sum

/-- An element of a channel: the next value when its bit is set, and else the value that was left
out. Each channel has the same number of bits. -/
def rebuilt (byteSize bitsPerChannel : Nat) (map data : List UInt8) (counts : List Nat)
    (zero : List UInt8) (oc index : Nat) : List UInt8 :=
  let isKept := fun index => bitAt map (oc * bitsPerChannel + index)
  if isKept index then
    (data.drop (channelStart byteSize counts oc +
      (List.range index).countP isKept * byteSize)).take byteSize
  else zero

theorem toNat_alignValUp {align : Nat} (pos : 0 < align) (value : Nat) :
    (Signed.alignValUp value align).toNat = alignUp align value := by
  have sum : (value : Int) + 1 * (align - 1) = ((value + (align - 1) : Nat) : Int) := by
    rw [one_mul, cast_add, cast_sub pos, cast_one]
  unfold Signed.alignValUp alignUp
  dsimp only
  rw [if_pos (Int.natCast_nonneg value), sum, ← Int.ofNat_tdiv, ← cast_mul, Int.toNat_natCast]

theorem alignedByteSize_eq (byteSize : Nat) : alignedByteSize byteSize = alignUp 16 byteSize :=
  toNat_alignValUp (by decide) byteSize

theorem sizeof_dvd {type : ValueType} (notDouble : type ≠ .double) : type.sizeof ∣ 16 := by
  cases type <;> decide

variable {outputIndex : Nat}

theorem alignOutputIndex_mul {byteSize : Nat} (whole : byteSize ∣ 16) :
    alignOutputIndex byteSize outputIndex * byteSize = alignUp 16 (outputIndex * byteSize) := by
  unfold alignOutputIndex
  dsimp only
  split
  · rw [alignedByteSize_eq]
    exact Nat.div_mul_cancel (whole.trans (dvd_alignUp 16 _))
  · rename_i aligned
    exact (alignUp_of_dvd (by decide)
      (dvd_of_mod_eq_zero (Decidable.not_not.mp aligned))).symm

section

variable {convert : FloatConversion} {casts : FloatCasts} {memory : Nat → UInt8} {content : Content}
  {type : ValueType} {value : Nat → List UInt8} {workloadSize channels : Nat} {zero : List UInt8}

variable (value workloadSize) in
def channelOf (oc : Nat) : List (List UInt8) :=
  (List.range workloadSize).map fun index => value (oc * workloadSize + index)

variable (type value workloadSize zero) in
def keptBytes (oc : Nat) : List UInt8 :=
  ((channelOf value workloadSize oc).filter fun item => !type.equal item zero).flatten

variable {oc : Nat}

theorem channelIndex_lt {index : Nat} (inside : oc < channels) (below : index < workloadSize) :
    oc * workloadSize + index < channels * workloadSize :=
  calc oc * workloadSize + index < oc * workloadSize + workloadSize :=
        Nat.add_lt_add_left below _
    _ = (oc + 1) * workloadSize := (succ_mul _ _).symm
    _ ≤ channels * workloadSize := mul_le_mul_right _ inside

theorem length_of_mem_channelOf {item : List UInt8} (inside : oc < channels)
    (sized : ∀ index < channels * workloadSize, (value index).length = type.sizeof)
    (mem : item ∈ channelOf value workloadSize oc) : item.length = type.sizeof := by
  obtain ⟨index, inRange, rfl⟩ := mem_map.mp mem
  exact sized _ (channelIndex_lt inside (mem_range.mp inRange))

theorem channelValues_eq (inside : oc < channels) (read : ∀ index < channels * workloadSize,
      content.getItem convert type index = some (value index)) :
    channelValues convert type content workloadSize oc =
      some (channelOf value workloadSize oc) := by
  refine Attempt.mapM_eq_some_iff.mpr (forall₂_map_right_iff.mpr ?_)
  exact forall₂_same.mpr fun index mem => read _ (channelIndex_lt inside (mem_range.mp mem))

variable (zero) in
/-- Writing the kept values of a list of values behind what was written. -/
theorem foldlM_sparsifyValueStep {total : Nat} {written buffer : List UInt8}
    {values : List (List UInt8)} (sized : ∀ item ∈ values, item.length = type.sizeof)
    (filled : Filled total 0 written buffer) (place : outputIndex * type.sizeof = written.length)
    (room : written.length + ((values.filter fun item => !type.equal item zero).flatten).length ≤
      total) :
    ∃ lastIndex after, values.foldlM (sparsifyValueStep type zero) (outputIndex, buffer) =
        some (lastIndex, after) ∧
      Filled total 0 (written ++ (values.filter fun item => !type.equal item zero).flatten) after ∧
      lastIndex * type.sizeof =
        (written ++ (values.filter fun item => !type.equal item zero).flatten).length := by
  induction values generalizing written buffer outputIndex with
  | nil => exact ⟨outputIndex, buffer, rfl, by simpa using filled, by simpa using place⟩
  | cons item values ih =>
    obtain ⟨isSized, sized⟩ := forall_mem_cons.mp sized
    rw [foldlM_cons]
    by_cases leftOut : type.equal item zero = true
    · have unchanged : sparsifyValueStep type zero (outputIndex, buffer) item =
          some (outputIndex, buffer) := if_pos leftOut
      rw [filter_cons_of_neg (by simp [leftOut])] at room ⊢
      rw [unchanged]
      exact ih sized filled place room
    · rw [filter_cons_of_pos (by simp [leftOut]), flatten_cons,
        length_append] at room
      rw [filter_cons_of_pos (by simp [leftOut]), flatten_cons, ← append_assoc]
      obtain ⟨after, copied, holds⟩ := filled.write item (by omega)
      have stepped : sparsifyValueStep type zero (outputIndex, buffer) item =
          some (outputIndex + 1, after) := by
        rw [sparsifyValueStep, if_neg leftOut, place, ← isSized, copied]
        rfl
      rw [stepped]
      refine ih sized holds ?_ ?_
      · rw [length_append, succ_mul, place, isSized]
      · rw [length_append]
        omega

variable (zero) in
theorem sparsifyChannel_eq {total : Nat} {written : List UInt8} {state : Nat × List UInt8}
    (whole : type.sizeof ∣ 16) (inside : oc < channels) (read : ∀ index < channels * workloadSize,
      content.getItem convert type index = some (value index))
    (sized : ∀ index < channels * workloadSize, (value index).length = type.sizeof)
    (filled : Filled total 0 written state.2) (place : state.1 * type.sizeof = written.length)
    (aligned : 16 ∣ written.length) (room : written.length +
      (withPadding 16 0 (keptBytes type value workloadSize zero oc)).length ≤ total) :
    ∃ after, sparsifyChannel convert type content zero workloadSize state oc = some after ∧
      Filled total 0 (written ++ withPadding 16 0 (keptBytes type value workloadSize zero oc))
        after.2 ∧
      after.1 * type.sizeof =
        (written ++ withPadding 16 0 (keptBytes type value workloadSize zero oc)).length := by
  have below : _ ≤ alignUp 16 _ := le_alignUp (by decide)
    (keptBytes type value workloadSize zero oc).length
  rw [length_withPadding (by decide)] at room
  obtain ⟨lastIndex, buffer, ran, holds, last⟩ := foldlM_sparsifyValueStep zero
    (fun item => length_of_mem_channelOf inside sized) filled place
    ((Nat.add_le_add_left below _).trans room)
  have skipped := holds.skip
    (alignUp 16 (keptBytes type value workloadSize zero oc).length -
      (keptBytes type value workloadSize zero oc).length)
    (by rw [length_append]; unfold keptBytes at below room ⊢; omega)
  rw [append_assoc] at skipped
  refine ⟨(alignOutputIndex type.sizeof lastIndex, buffer), ?_, skipped, ?_⟩
  · rw [sparsifyChannel, channelValues_eq inside read]
    show Option.map _ ((channelOf value workloadSize oc).foldlM _ (state.1, state.2)) = _
    rw [ran]
    rfl
  · rw [alignOutputIndex_mul whole, last, length_append, length_append,
      alignUp_add (by decide) aligned, length_withPadding (by decide)]
    rfl

variable (zero) in
theorem foldlM_sparsifyChannel (whole : type.sizeof ∣ 16) (read : ∀ index < channels * workloadSize,
      content.getItem convert type index = some (value index))
    (sized : ∀ index < channels * workloadSize, (value index).length = type.sizeof) :
    ∃ lastIndex, (List.range channels).foldlM
        (sparsifyChannel convert type content zero workloadSize)
        (0, List.replicate (packed 16 0 ((List.range channels).map
          (keptBytes type value workloadSize zero))).length 0) =
      some (lastIndex, packed 16 0 ((List.range channels).map
        (keptBytes type value workloadSize zero))) := by
  obtain ⟨final, ran, filled, -⟩ := exists_foldlM_packed
    (fun written (state : Nat × List UInt8) =>
      Filled (packed 16 0 ((range channels).map
        (keptBytes type value workloadSize zero))).length 0 written state.2 ∧
        state.1 * type.sizeof = written.length)
    (keptBytes type value workloadSize zero) channels
    (fun oc inside state holds room => sparsifyChannel_eq zero whole inside read sized holds.1
      holds.2 (dvd_length_packed (by decide) _) room)
    (show Filled _ 0 [] (0, replicate _ 0).2 ∧ _ from ⟨filled_nil, zero_mul _⟩)
  exact ⟨final.1, ran.trans (congrArg (fun data => some (final.1, data)) (filled.eq_of_length rfl))⟩

/-! ### The packed values of a content -/

variable {sparsifyValue : Int} {storage scalar : ScalarType}

theorem eq_of_checkedCast (casted : casts.checkedCast type sparsifyValue = some zero) :
    zero = casts.cast type sparsifyValue := by
  unfold FloatCasts.checkedCast at casted
  split at casted
  · split at casted
    · exact (Option.some.inj casted).symm
    · cases casted
  · split at casted
    · exact (Option.some.inj casted).symm
    · cases casted

theorem length_cast : (casts.cast type sparsifyValue).length = type.sizeof := by
  unfold FloatCasts.cast
  split
  · exact length_toBytes
  · split
    · rename_i isFloat
      rw [isFloat]
      exact length_toBytes
    · exact casts.length_construct _ _

theorem width_of_normalize (normalized : normalizeQuantStorageType storage = some scalar) :
    scalar.width = storage.width := by
  cases storage with
  | integer signedness width =>
    rw [← Option.some.inj normalized]
    rfl
  | float kind =>
    cases kind with
    | f8E4M3FN => rw [← Option.some.inj normalized]
    | f8E5M2 => rw [← Option.some.inj normalized]
    | _ => cases normalized

theorem width_of_weightsValueType (found : weightsValueType scalar = some type) :
    scalar.width = 8 * type.sizeof ∧ type ≠ .double := by
  cases scalar with
  | integer signedness width =>
    cases signedness with
    | signless => cases found
    | signed =>
      have checked : (if width = 8 then some ValueType.int8 else none) = some type := found
      obtain ⟨rfl, same⟩ := Option.ite_none_right_eq_some.mp checked
      obtain rfl := Option.some.inj same
      exact ⟨rfl, by decide⟩
    | unsigned =>
      have checked : (if width = 8 then some ValueType.uint8 else none) = some type := found
      obtain ⟨rfl, same⟩ := Option.ite_none_right_eq_some.mp checked
      obtain rfl := Option.some.inj same
      exact ⟨rfl, by decide⟩
  | float kind =>
    cases kind with
    | f64 => cases found
    | _ =>
      rw [← Option.some.inj found]
      exact ⟨rfl, by decide⟩

theorem byteSize_of_sparseValues {elemType : ElemType}
    (weights : sparseValues elemType = some (type, sparsifyValue)) :
    elemType.byteSize = some type.sizeof ∧ type ≠ .double := by
  obtain ⟨⟨scalar, zeroPoint⟩, value, found⟩ := Option.bind_eq_some_iff.mp weights
  obtain ⟨valueType, isType, same⟩ := Option.map_eq_some_iff.mp found
  obtain ⟨rfl, rfl⟩ := Prod.mk.inj same
  obtain ⟨width, notDouble⟩ := width_of_weightsValueType isType
  have stored : elemType.size = scalar.width := by
    cases elemType with
    | scalar type =>
      obtain ⟨rfl, -⟩ := Prod.mk.inj (Option.some.inj value)
      rfl
    | quantized storage zeroPoint =>
      obtain ⟨normalized, isNormalized, same⟩ := Option.map_eq_some_iff.mp value
      obtain ⟨rfl, -⟩ := Prod.mk.inj same
      exact (width_of_normalize isNormalized).symm
    | quantizedPerAxis storage axis zeroPoints =>
      obtain ⟨normalized, isNormalized, rest⟩ := Option.bind_eq_some_iff.mp value
      split at rest
      · obtain ⟨zeroPoint, -, same⟩ := Option.map_eq_some_iff.mp rest
        obtain ⟨rfl, -⟩ := Prod.mk.inj same
        exact (width_of_normalize isNormalized).symm
      · cases rest
  refine ⟨?_, notDouble⟩
  unfold ElemType.byteSize
  rw [stored, width, Nat.mul_mod_right, if_pos rfl, Nat.mul_div_cancel_left _ (by decide)]

theorem fillWithZero_allocTempBuffer_scalar {outputType : NDType}
    (isScalar : outputType.elemType = .scalar scalar) :
    (allocTempBuffer memory outputType (.scalar storage) false).fillWithZero convert =
      some (List.replicate ((storage.width * outputType.numElements + 7) / 8) 0) := by
  have isType : (allocTempBuffer memory outputType (.scalar storage) false).type.elemType =
    .scalar scalar := isScalar
  have length : (allocTempBuffer memory outputType (.scalar storage) false).data.length =
      (storage.width * outputType.numElements + 7) / 8 :=
    (length_map _).trans length_range
  unfold Content.fillWithZero
  rw [isType]
  rw [length]

variable (type value workloadSize channels zero) in
def keptCounts : List Nat :=
  (List.range channels).map fun oc =>
    (channelOf value workloadSize oc).countP fun item => !type.equal item zero

variable {IC KY KX : Nat}

theorem countValue_eq {OC : Nat} (shape : content.type.shape = [OC, IC, KY, KX])
    (casted : casts.checkedCast type sparsifyValue = some zero)
    (read : ∀ index < OC * (IC * KY * KX),
      content.getItem convert type index = some (value index)) :
    countValue convert casts type sparsifyValue content =
      some (keptCounts type value (IC * KY * KX) OC zero) := by
  unfold countValue
  rw [shape, casted]
  refine Attempt.mapM_eq_some_iff.mpr (forall₂_map_right_iff.mpr ?_)
  refine forall₂_same.mpr fun oc mem => ?_
  rw [channelValues_eq (mem_range.mp mem) read]
  rfl

theorem length_keptBytes (inside : oc < channels)
    (sized : ∀ index < channels * workloadSize, (value index).length = type.sizeof) :
    (keptBytes type value workloadSize zero oc).length =
      (channelOf value workloadSize oc).countP (fun item => !type.equal item zero) *
        type.sizeof := by
  rw [keptBytes, length_flatten fun item mem =>
    length_of_mem_channelOf inside sized (mem_filter.mp mem).1,
    countP_eq_length_filter]

theorem sum_keptCounts
    (sized : ∀ index < channels * workloadSize, (value index).length = type.sizeof) :
    ((keptCounts type value workloadSize channels zero).map fun num =>
      alignedByteSize (num * type.sizeof)).sum =
      (packed 16 (0 : UInt8) ((List.range channels).map
        (keptBytes type value workloadSize zero))).length := by
  rw [length_packed (by decide), keptCounts, map_map, map_map]
  refine congrArg sum (map_congr_left fun oc mem => ?_)
  rw [comp_apply, comp_apply, alignedByteSize_eq, length_keptBytes (mem_range.mp mem) sized]

/-! ### The bits of the map -/

def markByte (isKept : Nat → Bool) : UInt8 :=
  (List.range 8).foldl (fun byteValue bitShift =>
    if isKept bitShift then byteValue ||| UInt8.ofNat (1 <<< bitShift) else byteValue) 0

variable (isKept : Nat → Bool)

theorem testBit_foldl_mark {count : Nat} (few : count ≤ 8) (bit : Nat) :
    ((List.range count).foldl (fun (byteValue : UInt8) bitShift =>
      if isKept bitShift then byteValue ||| UInt8.ofNat (1 <<< bitShift) else byteValue)
        0).toNat.testBit bit = (decide (bit < count) && isKept bit) := by
  induction count with
  | zero => simp
  | succ count ih =>
    have earlier := ih (le_of_succ_le few)
    have mark : (UInt8.ofNat (1 <<< count)).toNat = 2 ^ count := by
      rw [one_shiftLeft]
      exact UInt8.toNat_ofNat_of_lt' (Nat.pow_lt_pow_right (by decide) few)
    rw [range_succ, foldl_append, foldl_cons, foldl_nil]
    by_cases this : bit = count
    · subst this
      cases kept : isKept bit with
      | true =>
        rw [if_pos rfl, UInt8.toNat_or, testBit_or, earlier, mark]
        simp
      | false =>
        rw [if_neg Bool.false_ne_true, earlier]
        simp [kept]
    · have sameBound : decide (bit < count + 1) = decide (bit < count) :=
        decide_eq_decide.mpr (by omega)
      rw [sameBound, ← earlier]
      split
      · rw [UInt8.toNat_or, testBit_or, mark, testBit_two_pow_of_ne (Ne.symm this), Bool.or_false]
      · rfl

theorem testBit_markByte {bit : Nat} (inside : bit < 8) :
    (markByte isKept).toNat.testBit bit = isKept bit := by
  rw [markByte, testBit_foldl_mark isKept le_rfl, decide_eq_true inside, Bool.true_and]

theorem sparsityMapByte_eq {byteStart : Nat}
    (read : ∀ bit < 8, content.getItem convert type (byteStart + bit) =
      some (value (byteStart + bit))) :
    sparsityMapByte convert casts type content sparsifyValue byteStart = some (markByte fun bit =>
      !type.equal (value (byteStart + bit)) (casts.cast type sparsifyValue)) := by
  unfold sparsityMapByte markByte
  rw [← Option.pure_def, ← foldlM_pure]
  refine Attempt.foldlM_congr _ (fun bit mem byteValue => ?_) _
  rw [read bit (mem_range.mp mem)]
  cases same : type.equal (value (byteStart + bit)) (casts.cast type sparsifyValue) <;>
    simp [same]

variable (type value zero) in
/-- The bytes of the map of a channel, which has eight elements for each of them. -/
def markBytes (bytes oc : Nat) : List UInt8 :=
  (List.range bytes).map fun step => markByte fun bit =>
    !type.equal (value (oc * (8 * bytes) + 8 * step + bit)) zero

variable {bytes oc : Nat}

@[simp] theorem length_markBytes : (markBytes type value zero bytes oc).length = bytes := by
  rw [markBytes, length_map, length_range]

theorem sparsityMapChannel_eq {total : Nat} {written buffer : List UInt8} (inside : oc < channels)
    (read : ∀ index < channels * (8 * bytes),
      content.getItem convert type index = some (value index))
    (filled : Filled total 0 written buffer) (place : written.length = oc * alignUp 16 bytes)
    (room : written.length + alignUp 16 bytes ≤ total) :
    ∃ after, sparsityMapChannel convert casts type content sparsifyValue (8 * bytes)
        (8 * alignUp 16 bytes) buffer oc = some after ∧
      Filled total 0 (written ++ withPadding 16 0
        (markBytes type value (casts.cast type sparsifyValue) bytes oc)) after := by
  have below : bytes ≤ alignUp 16 bytes := le_alignUp (by decide) bytes
  let mark := fun step => markByte fun bit =>
    !type.equal (value (oc * (8 * bytes) + 8 * step + bit)) (casts.cast type sparsifyValue)
  have length : ∀ count, ((range count).map mark).length = count := fun count =>
    (length_map _).trans length_range
  have turn : ∀ step < bytes, ∀ state,
      Filled total 0 (written ++ (range step).map mark) state →
      ∃ after, (sparsityMapByte convert casts type content sparsifyValue
          (oc * (8 * bytes) + 8 * step)).bind (fun byteValue =>
            copyBytes [byteValue] 0 1 state (written.length + step)) = some after ∧
        Filled total 0 (written ++ (range (step + 1)).map mark) after := by
    intro step less state holds
    have readHere : ∀ bit < 8, content.getItem convert type (oc * (8 * bytes) + 8 * step + bit) =
        some (value (oc * (8 * bytes) + 8 * step + bit)) := by
      intro bit inByte
      rw [add_assoc]
      exact read _ (channelIndex_lt inside (by omega))
    obtain ⟨next, copied, behind⟩ := holds.write [mark step]
      (by rw [length_append, length, length_singleton]; omega)
    rw [length_append, length] at copied
    rw [sparsityMapByte_eq readHere, range_succ, map_append, ← append_assoc]
    exact ⟨next, copied, behind⟩
  obtain ⟨after, ran, holds⟩ := Attempt.exists_foldlM_range
    (fun count buffer => Filled total 0 (written ++ (range count).map mark) buffer)
    bytes turn (by simpa using filled)
  have skipped := holds.skip (alignUp 16 bytes - bytes)
    (by rw [length_append, length]; omega)
  rw [append_assoc] at skipped
  refine ⟨after, ?_, ?_⟩
  · unfold sparsityMapChannel
    have count : (8 * bytes + 7) / 8 = bytes := by omega
    have start : oc * (8 * alignUp 16 bytes) / 8 = written.length := by
      rw [place, Nat.mul_left_comm, Nat.mul_div_cancel_left _ (by decide)]
    rw [count, start]
    exact ran
  · rw [withPadding, length_markBytes, markBytes]
    exact skipped

theorem foldlM_sparsityMapChannel (read : ∀ index < channels * (8 * bytes),
      content.getItem convert type index = some (value index)) :
    (List.range channels).foldlM (sparsityMapChannel convert casts type content sparsifyValue
        (8 * bytes) (8 * alignUp 16 bytes)) (List.replicate (channels * alignUp 16 bytes) 0) =
      some (packed 16 0 ((List.range channels).map
        (markBytes type value (casts.cast type sparsifyValue) bytes))) := by
  have length : ∀ count, (packed 16 0 ((range count).map
      (markBytes type value (casts.cast type sparsifyValue) bytes))).length =
      count * alignUp 16 bytes := by
    intro count
    rw [length_packed (by decide), map_map]
    simp only [comp_def, length_markBytes, map_const', sum_replicate_nat, length_range]
  obtain ⟨final, ran, filled⟩ := exists_foldlM_packed
    (fun written buffer => Filled (channels * alignUp 16 bytes) 0 written buffer)
    (markBytes type value (casts.cast type sparsifyValue) bytes) channels
    (fun oc inside buffer holds room => sparsityMapChannel_eq inside read holds (length oc)
      (by rwa [length channels, length_withPadding (by decide), length_markBytes] at room))
    filled_nil
  rw [ran, filled.eq_of_length (length channels)]

theorem bitAt_packed {index : Nat} (inside : oc < channels) (below : index < 8 * alignUp 16 bytes) :
    bitAt (packed 16 0 ((List.range channels).map (markBytes type value zero bytes)))
        (oc * (8 * alignUp 16 bytes) + index) =
      (decide (index < 8 * bytes) && !type.equal (value (oc * (8 * bytes) + index)) zero) := by
  have found : ((range channels).map (markBytes type value zero bytes))[oc]? =
      some (markBytes type value zero bytes oc) := by
    rw [getElem?_map, getElem?_range inside]
    rfl
  have start : startOf 16 ((range channels).map (markBytes type value zero bytes)) oc =
      oc * alignUp 16 bytes := by
    refine startOf_of_length (fun block mem => ?_) ?_
    · obtain ⟨other, -, rfl⟩ := mem_map.mp mem
      exact length_markBytes
    · rw [length_map, length_range]
      exact inside.le
  have byte : (oc * (8 * alignUp 16 bytes) + index) / 8 =
      startOf 16 ((range channels).map (markBytes type value zero bytes)) oc + index / 8 := by
    rw [start, Nat.mul_left_comm, mul_add_div (by decide)]
  have bit : (oc * (8 * alignUp 16 bytes) + index) % 8 = index % 8 := by
    rw [Nat.mul_left_comm, mul_add_mod]
  have inChannel : index / 8 < (withPadding 16 0 (markBytes type value zero bytes oc)).length := by
    rw [length_withPadding (by decide), length_markBytes]
    omega
  unfold bitAt
  rw [byte, bit, getD_eq_getElem?_getD, ← getElem?_drop, drop_packed (by decide) found,
    getElem?_append_left inChannel, withPadding]
  by_cases real : index < 8 * bytes
  · have less : index / 8 < bytes := by omega
    have place : oc * (8 * bytes) + 8 * (index / 8) + index % 8 = oc * (8 * bytes) + index := by
      omega
    rw [getElem?_append_left (less.trans_eq length_markBytes.symm), markBytes,
      getElem?_map, getElem?_range less, Option.map_some, Option.getD_some,
      testBit_markByte _ (mod_lt _ (by decide)), place, decide_eq_true real, Bool.true_and]
  · have behind : (markBytes type value zero bytes oc).length ≤ index / 8 := by
      rw [length_markBytes]
      omega
    rw [getElem?_append_right behind, decide_eq_false real, Bool.false_and, getElem?_replicate]
    split <;> exact zero_testBit _

/-! ### What the transformations give -/

theorem numElements_of_weights {OC : Nat} (shape : content.type.shape = [OC, IC, KY, KX]) :
    content.type.numElements = OC * (IC * KY * KX) := by
  rw [NDType.numElements, shape]
  simp [mul_assoc]

theorem compressType_eq {inputType : NDType} (rank : inputType.shape.length = 4)
    (byteSize : inputType.elemType.byteSize = some type.sizeof) (counts : List Nat) :
    ∃ outputType, compressType inputType counts = some outputType ∧
      outputType.elemType = uint8Type ∧ outputType.numElements =
        (counts.map fun num => alignedByteSize (num * type.sizeof)).sum := by
  have sameRank : inputType.order.numDims = 4 := inputType.matchesRank.trans rank
  unfold compressType
  rw [byteSize]
  refine ⟨⟨[(counts.map fun num => alignedByteSize (num * type.sizeof)).sum, 1, 1, 1],
    inputType.order, uint8Type, sameRank⟩, ?_, rfl, ?_⟩
  · exact NDType.changeShapeElemType_eq_some.mpr ⟨⟨rfl, rfl, rfl⟩, rfl⟩
  · simp [NDType.numElements]

variable {sparsifyValue : Int}

theorem SparsifyAttr.transform_eq {OC : Nat} (shape : content.type.shape = [OC, IC, KY, KX])
    (weights : sparseValues content.type.elemType = some (type, sparsifyValue))
    (casted : casts.checkedCast type sparsifyValue = some zero)
    (read : ∀ index < OC * (IC * KY * KX), content.getItem convert type index = some (value index))
    (sized : ∀ index < OC * (IC * KY * KX), (value index).length = type.sizeof) :
    ∃ out, out.data = packed 16 0 ((List.range OC).map (keptBytes type value (IC * KY * KX) zero)) ∧
      ∀ attr : SparsifyAttr, (attr.numActualElements = none ∨
          attr.numActualElements = some (keptCounts type value (IC * KY * KX) OC zero)) →
        attr.transform convert casts memory content = some out := by
  obtain ⟨byteSize, notDouble⟩ := byteSize_of_sparseValues weights
  obtain ⟨outputType, inferred, elemType, numElements⟩ := compressType_eq
    (by rw [shape]; rfl) byteSize (keptCounts type value (IC * KY * KX) OC zero)
  rw [sum_keptCounts sized] at numElements
  have counted : countNonSparseElementsPerOC convert casts content content.type.elemType =
      some (keptCounts type value (IC * KY * KX) OC zero) := by
    unfold countNonSparseElementsPerOC
    rw [weights]
    exact countValue_eq shape casted read
  have filled : (allocTempBuffer memory outputType outputType.elemType false).fillWithZero convert =
      some (replicate (packed 16 (0 : UInt8) ((range OC).map
        (keptBytes type value (IC * KY * KX) zero))).length 0) := by
    rw [elemType, uint8Type, fillWithZero_allocTempBuffer_scalar elemType, numElements]
    congr 2
    show (8 * _ + 7) / 8 = _
    omega
  obtain ⟨lastIndex, ran⟩ := foldlM_sparsifyChannel zero (sizeof_dvd notDouble) read sized
  refine ⟨{ allocTempBuffer memory outputType outputType.elemType false with
    data := packed 16 0 ((range OC).map (keptBytes type value (IC * KY * KX) zero)) }, rfl,
    fun attr known => ?_⟩
  have elements : (match attr.numActualElements with
      | some numElemsPerOC => some numElemsPerOC
      | none => countNonSparseElementsPerOC convert casts content content.type.elemType) =
      some (keptCounts type value (IC * KY * KX) OC zero) := by
    rcases known with known | known <;> rw [known]
    exact counted
  unfold SparsifyAttr.transform
  dsimp only
  rw [elements, Option.bind_some, inferred, Option.bind_some, weights, Option.bind_some]
  unfold sparsify
  dsimp only
  rw [filled, shape, Option.bind_some]
  dsimp only
  rw [casted, Option.bind_some, ran]
  rfl

section

variable (weights : sparseValues content.type.elemType = some (type, sparsifyValue))
  (fails : casts.checkedCast type sparsifyValue = none)
include weights fails

theorem countNonSparse_eq_none :
    countNonSparseElementsPerOC convert casts content content.type.elemType = none := by
  unfold countNonSparseElementsPerOC countValue
  rw [weights, Option.bind_some]
  dsimp only
  rw [fails]
  split <;> rfl

theorem SparsifyAttr.transform_eq_none {attr : SparsifyAttr} :
    attr.transform convert casts memory content = none := by
  have nothing : ∀ outputType,
      sparsify convert casts memory type content sparsifyValue outputType = none := by
    intro outputType
    unfold sparsify
    dsimp only
    rw [fails]
    cases (allocTempBuffer memory outputType outputType.elemType false).fillWithZero convert with
    | none => rfl
    | some buffer => split <;> rfl
  unfold SparsifyAttr.transform
  dsimp only
  rw [weights]
  simp only [Option.bind_some, nothing, Option.bind_fun_none]

end

theorem GetSparsityMapAttr.transform_eq {OC bytes : Nat} {mapType : NDType}
    (shape : content.type.shape = [OC, IC, KY, KX]) (whole : IC * KY * KX = 8 * bytes)
    (weights : sparseValues content.type.elemType = some (type, sparsifyValue))
    (inferred : GetSparsityMapAttr.inferOutputType content.type = some mapType)
    (read : ∀ index < OC * (8 * bytes), content.getItem convert type index = some (value index)) :
    ∃ map, GetSparsityMapAttr.transform convert casts memory content = some map ∧
      map.type = mapType ∧ mapType.shape = [OC, 1, 1, 8 * alignUp 16 bytes] ∧
      map.data = packed 16 0 ((List.range OC).map
        (markBytes type value (casts.cast type sparsifyValue) bytes)) := by
  have workload : (content.type.shape.drop 1).prod = 8 * bytes := by
    rw [shape, ← whole]
    simp [mul_assoc]
  have aligned : (Signed.alignValUp (8 * bytes : Nat) (16 * 8)).toNat = 8 * alignUp 16 bytes := by
    refine (toNat_alignValUp (show 0 < 16 * 8 by decide) (8 * bytes)).trans ?_
    unfold alignUp
    omega
  have mapShape : inferWeightsSparsityMapShape content.type.shape =
      some [OC, 1, 1, 8 * alignUp 16 bytes] := by
    unfold inferWeightsSparsityMapShape
    rw [if_pos (by rw [shape]; rfl), workload]
    dsimp only
    rw [aligned, shape]
    rfl
  have isMapType := inferred
  unfold GetSparsityMapAttr.inferOutputType at isMapType
  rw [mapShape, Option.bind_some] at isMapType
  obtain ⟨reshaped, -, final⟩ := Option.bind_eq_some_iff.mp isMapType
  obtain ⟨⟨-, shapeEq, elemType⟩, -⟩ := NDType.changeShapeElemType_eq_some.mp final
  have filled : (allocTempBuffer memory mapType (.scalar (.integer .unsigned 1)) false).fillWithZero
      convert = some (replicate (OC * alignUp 16 bytes) 0) := by
    rw [fillWithZero_allocTempBuffer_scalar elemType.symm, NDType.numElements, ← shapeEq]
    congr 2
    show (1 * (OC * (1 * (1 * (8 * alignUp 16 bytes * 1)))) + 7) / 8 = _
    rw [mul_one, one_mul, one_mul, one_mul, Nat.mul_left_comm]
    omega
  refine ⟨{ allocTempBuffer memory mapType (.scalar (.integer .unsigned 1)) false with
    data := packed 16 0 ((range OC).map
      (markBytes type value (casts.cast type sparsifyValue) bytes)) }, ?_, rfl, shapeEq.symm, rfl⟩
  have bits : (mapType.shape.drop 1).prod = 8 * alignUp 16 bytes := by
    rw [← shapeEq]
    simp
  have channels : mapType.shape.getD 0 0 = OC := by
    rw [← shapeEq]
    rfl
  unfold GetSparsityMapAttr.transform
  rw [inferred, Option.bind_some, weights, Option.bind_some]
  unfold generateSparsityMap
  dsimp only
  rw [filled, Option.bind_some, workload, bits, channels, foldlM_sparsityMapChannel read]
  rfl

/-! ### The weights are rebuilt -/

theorem channelStart_keptCounts (inside : oc < channels)
    (sized : ∀ index < channels * workloadSize, (value index).length = type.sizeof) :
    channelStart type.sizeof (keptCounts type value workloadSize channels zero) oc =
      startOf 16 ((List.range channels).map (keptBytes type value workloadSize zero)) oc := by
  have isFront : (range channels).take oc = range oc := by rw [take_range, min_eq_left inside.le]
  rw [channelStart, startOf, keptCounts, ← map_take, ← map_take, isFront, map_map, map_map]
  refine congrArg sum (map_congr_left fun earlier mem => ?_)
  rw [comp_apply, comp_apply, alignedByteSize_eq,
    length_keptBytes ((mem_range.mp mem).trans inside) sized]

theorem countP_range_channelOf {count : Nat} {isKept : Nat → Bool} {keep : List UInt8 → Bool}
    (few : count ≤ workloadSize)
    (same : ∀ index < count, isKept index = keep (value (oc * workloadSize + index))) :
    (List.range count).countP isKept =
      ((channelOf value workloadSize oc).take count).countP keep := by
  rw [channelOf, ← map_take, take_range, min_eq_left few, countP_map]
  exact countP_congr fun index mem => by rw [comp_apply, same index (mem_range.mp mem)]

theorem countP_bitAt (inside : oc < channels) :
    (List.range (8 * alignUp 16 bytes)).countP (fun index =>
        bitAt (packed 16 0 ((List.range channels).map (markBytes type value zero bytes)))
          (oc * (8 * alignUp 16 bytes) + index)) =
      (channelOf value (8 * bytes) oc).countP fun item => !type.equal item zero := by
  have below : 8 * bytes ≤ 8 * alignUp 16 bytes := mul_le_mul_left 8 (le_alignUp (by decide) bytes)
  obtain ⟨rest, split⟩ := Nat.exists_eq_add_of_le below
  have noneBehind : ((range rest).map (8 * bytes + ·)).countP (fun index =>
      bitAt (packed 16 0 ((range channels).map (markBytes type value zero bytes)))
        (oc * (8 * alignUp 16 bytes) + index)) = 0 := by
    refine countP_eq_zero.mpr fun index mem => ?_
    obtain ⟨offset, inRest, rfl⟩ := mem_map.mp mem
    have before := mem_range.mp inRest
    rw [bitAt_packed inside (by omega), decide_eq_false (by omega), Bool.false_and]
    exact Bool.false_ne_true
  have ranges : range (8 * alignUp 16 bytes) =
      range (8 * bytes) ++ (range rest).map (8 * bytes + ·) := by
    rw [split, range_add]
  have whole : (channelOf value (8 * bytes) oc).take (8 * bytes) = channelOf value (8 * bytes) oc :=
    take_of_length_le ((length_map _).trans length_range).le
  rw [ranges, countP_append, noneBehind, add_zero, ← whole]
  refine countP_range_channelOf le_rfl fun index less => ?_
  rw [bitAt_packed inside (less.trans_le below), decide_eq_true less, Bool.true_and]

/-- A kept value is found again behind the kept values in front of it. -/
theorem rebuilt_eq {index : Nat} (inside : oc < channels) (below : index < 8 * bytes)
    (sized : ∀ index < channels * (8 * bytes), (value index).length = type.sizeof) :
    rebuilt type.sizeof (8 * alignUp 16 bytes)
        (packed 16 0 ((List.range channels).map (markBytes type value zero bytes)))
        (packed 16 0 ((List.range channels).map (keptBytes type value (8 * bytes) zero)))
        (keptCounts type value (8 * bytes) channels zero) zero oc index =
      if type.equal (value (oc * (8 * bytes) + index)) zero then zero
      else value (oc * (8 * bytes) + index) := by
  have wider : 8 * bytes ≤ 8 * alignUp 16 bytes := mul_le_mul_left 8 (le_alignUp (by decide) bytes)
  have isBit : ∀ other < 8 * bytes, bitAt (packed 16 0 ((range channels).map
      (markBytes type value zero bytes))) (oc * (8 * alignUp 16 bytes) + other) =
      !type.equal (value (oc * (8 * bytes) + other)) zero := by
    intro other less
    rw [bitAt_packed inside (less.trans_le wider), decide_eq_true less, Bool.true_and]
  have here := isBit index below
  unfold rebuilt
  dsimp only
  cases leftOut : type.equal (value (oc * (8 * bytes) + index)) zero with
  | true =>
    rw [leftOut, Bool.not_true] at here
    rw [if_neg (here ▸ Bool.false_ne_true), if_pos rfl]
  | false =>
    rw [leftOut, Bool.not_false] at here
    have found : ((range channels).map (keptBytes type value (8 * bytes) zero))[oc]? =
        some (keptBytes type value (8 * bytes) zero oc) := by
      rw [getElem?_map, getElem?_range inside]
      rfl
    have item : (channelOf value (8 * bytes) oc)[index]? =
        some (value (oc * (8 * bytes) + index)) := by
      rw [channelOf, getElem?_map, getElem?_range below]
      rfl
    have rank : (range index).countP (fun other => bitAt (packed 16 0 ((range
        channels).map (markBytes type value zero bytes))) (oc * (8 * alignUp 16 bytes) + other)) =
        ((channelOf value (8 * bytes) oc).take index).countP fun item => !type.equal item zero :=
      countP_range_channelOf below.le fun other less => isBit other (less.trans below)
    have kept : (!type.equal (value (oc * (8 * bytes) + index)) zero) = true := by
      rw [leftOut, Bool.not_false]
    rw [if_pos here, if_neg Bool.false_ne_true, channelStart_keptCounts inside sized,
      ← drop_drop, drop_packed (by decide) found, rank, withPadding, append_assoc]
    exact take_drop_flatten (fun item mem =>
      length_of_mem_channelOf inside sized (mem_filter.mp mem).1)
      (getElem?_filter item kept)

/-- Two channels of eight weights each, with a zero point that is not zero. -/
def twoFilters : Content where
  type := ⟨[2, 8, 1, 1], .NHWC, .quantized (.integer .unsigned 8) 3, rfl⟩
  storageElemType := .scalar (.integer .unsigned 8)
  isSplat := false
  data := [3, 1, 3, 2, 0, 3, 3, 3, 3, 3, 7, 3, 3, 3, 3, 5]

/-- Casts for weights that are integers. -/
def integerCasts : FloatCasts where
  toFloat := fun _ => 0
  isExact := fun value => value = 0
  construct := fun type _ => List.replicate type.sizeof 0
  length_construct := fun _ _ => length_replicate

end

end NpuPlugin.ConstTransformations
