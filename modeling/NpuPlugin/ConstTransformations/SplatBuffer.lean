/-
This file is about the bytes that are copied out of a splat. Values that take less than a byte are
packed in two ways, one for a splat and one for stored elements, and it shows when both agree.
-/

import Mathlib.Tactic.IntervalCases
import NpuPlugin.ConstTransformations.Splat

namespace NpuPlugin.ConstTransformations

open Copies List Nat

/-! ### Packed values -/

/-- A one in each of some fields -/
def repeatedOnes (bits : Nat) : Nat → Nat
  | 0 => 0
  | fields + 1 => repeatedOnes bits fields * 2 ^ bits + 1

theorem ne_add_one (byte : UInt8) : byte ≠ byte + 1 := by
  intro same
  have sameNumber : byte.toNat = (byte.toNat + 1) % 2 ^ 8 := by
    rw [← UInt8.toNat_one, ← UInt8.toNat_add, ← same]
  omega

theorem ofInt_toNat (byte : UInt8) : UInt8.ofInt (byte.toNat : Int) = byte := by
  refine UInt8.toNat_inj.mp ?_
  have small := byte.toNat_lt
  rw [UInt8.ofInt, UInt8.toNat_ofNat']
  omega

theorem splatByte_eq (bits : Nat) (value : Int) :
    Content.splatByte bits value = UInt8.ofInt (value * repeatedOnes bits (8 / bits)) := by
  have shifted : ∀ count, (range count).foldl (fun (byteValue : UInt8) _ =>
      UInt8.ofInt (byteValue.toNat * 2 ^ bits + value)) 0 =
        UInt8.ofInt (value * repeatedOnes bits count) := by
    intro count
    induction count with
    | zero =>
      rw [repeatedOnes, Int.natCast_zero, Int.mul_zero]
      rfl
    | succ count ih =>
      rw [range_succ, foldl_append, ih, foldl_cons, foldl_nil, repeatedOnes]
      have pushed : UInt8.ofInt ((UInt8.ofInt (value * repeatedOnes bits count)).toNat *
          2 ^ bits + value) = UInt8.ofInt (value * repeatedOnes bits count) *
            UInt8.ofInt (2 ^ bits) + UInt8.ofInt value := by
        rw [UInt8.ofInt_add, UInt8.ofInt_mul, ofInt_toNat]
      rw [pushed, ← UInt8.ofInt_mul, ← UInt8.ofInt_add]
      congr 1
      push_cast
      ring
  exact shifted (8 / bits)

set_option synthInstance.maxSize 256 in
theorem packByte_eq_splatByte_iff {bits count : Nat} {value : Int} (pos : 0 < bits)
    (small : bits < 8) (isCount : count = 1 ∨ count = 2 ∨ count = 4 ∨ count = 8)
    (fits : count * bits ≤ 8) (lower : -2 ^ (bits - 1) ≤ value) (upper : value < 2 ^ bits) :
    Content.packByte (8 / count) (List.replicate count value) = Content.splatByte bits value ↔
      value = 0 ∨ 0 ≤ value ∧ count * bits = 8 ∨ 4 < bits ∨
        value = -2 ∧ bits = 3 ∧ count = 2 := by
  have table : ∀ bits < 8, ∀ count ∈ [1, 2, 4, 8], 0 < bits ∧ count * bits ≤ 8 →
      ∀ number : Nat, number < 2 ^ bits + 2 ^ (bits - 1) →
      (Content.packByte (8 / count) (replicate count ((number : Int) - 2 ^ (bits - 1))) =
        Content.splatByte bits ((number : Int) - 2 ^ (bits - 1)) ↔
          (number : Int) - 2 ^ (bits - 1) = 0 ∨
            0 ≤ (number : Int) - 2 ^ (bits - 1) ∧ count * bits = 8 ∨ 4 < bits ∨
              (number : Int) - 2 ^ (bits - 1) = -2 ∧ bits = 3 ∧ count = 2) := by
    decide +kernel
  have isMember : count ∈ [1, 2, 4, 8] := by simpa using isCount
  have isNumber : ((value + 2 ^ (bits - 1)).toNat : Int) - 2 ^ (bits - 1) = value := by omega
  have inTable : (value + 2 ^ (bits - 1)).toNat < 2 ^ bits + 2 ^ (bits - 1) := by
    refine (Int.toNat_lt (by omega)).mpr ?_
    push_cast
    omega
  have entry := table bits small count isMember ⟨pos, fits⟩ _ inTable
  rwa [isNumber] at entry

/-! ### What is copied -/

/-- The condition under which a splat is copied like its elements -/
def Content.CopiesAlike (convert : FloatConversion) (content : Content) : Prop :=
  let elemType := content.type.elemType
  let numElements := content.type.numElements
  let size := content.type.totalAllocSize
  if 8 ≤ elemType.size then
    elemType = content.storageElemType → match dispatchByElemType elemType with
      | some outT => numElements = 0 ∨ cvt convert outT outT content.data = some content.data
      | none => size < numElements * content.data.length
  else ∃ value, content.subByteValue convert = some value ∧ (numElements = 0 ∨
    if content.storageElemType = boolType then
      size = (numElements + 7) / 8 ∧ (value = 0 ∨ elemType.size = 1 ∧ numElements % 8 = 0 ∨
        4 < elemType.size ∧ numElements = 1)
    else if size = numElements * content.data.length then
      content.data = [UInt8.ofInt (value * repeatedOnes elemType.size (8 / elemType.size))]
    else numElements % size = 0 ∧ numElements / size ≤ 8 ∧
      Content.isPowerOfTwo (numElements / size) ∧
        (value = 0 ∨ 0 ≤ value ∧ numElements * elemType.size % 8 = 0 ∨ 4 < elemType.size ∨
          value = -2 ∧ elemType.size = 3 ∧ numElements = 2 * size))

section

variable {convert : FloatConversion} {content : Content} {outT : ValueType} {value : Int}
  {target : List UInt8}

theorem expanded_dense : ¬ content.expanded.isSplat = true := Bool.false_ne_true

variable {ind count size bits : Nat}

section

variable (stored : content.StoresSplat convert)
include stored

theorem getItem_expanded (less : ind < content.type.numElements) :
    content.expanded.getItem convert outT ind = content.getItem convert outT 0 := by
  unfold Content.getItem
  rw [show content.expanded.storageElemType = content.storageElemType from rfl]
  cases dispatched : dispatchByElemType content.storageElemType with
  | none => rfl
  | some inT =>
    simp only [Option.bind_some]
    split
    · rfl
    · rename_i whole
      have size := size_of_dispatch dispatched (not_lt.mp whole)
      have isSize : content.storageElemType.byteSize = some inT.sizeof := by
        rw [ElemType.byteSize, size, if_pos (Nat.mul_mod_right _ _),
          Nat.mul_div_cancel_left _ (by decide)]
      have length := stored.length_data isSize
      rw [if_pos stored.splat, if_neg expanded_dense, size,
        Nat.mul_div_cancel_left _ (by decide), if_pos length, expanded_data isSize, ← length,
        take_drop_flatten_replicate less, length_flatten_replicate, ← Nat.succ_mul,
        if_pos (Nat.mul_le_mul_right _ less)]

theorem getInt8_expanded (less : ind < content.type.numElements)
    (notBool : content.storageElemType ≠ boolType)
    (isValue : content.subByteValue convert = some value) :
    content.expanded.getInt8 convert ind = some value := by
  rw [Content.subByteValue, if_neg (show ¬ content.storageElemType = .scalar
    (.integer .signless 1) from notBool)] at isValue
  rw [Content.getInt8, getItem_expanded stored less]
  exact isValue

theorem copyTo_expanded_of_ne (whole : 8 ≤ content.type.elemType.size)
    (other : content.type.elemType ≠ content.storageElemType) :
    content.copyTo convert target = content.expanded.copyTo convert target := by
  unfold Content.copyTo
  rw [show content.expanded.type = content.type from rfl,
    if_neg whole.not_gt, if_neg whole.not_gt, if_neg fun both => other both.2,
    if_neg fun both => other both.2]
  refine congrArg _ (funext fun outT => ?_)
  unfold Content.fillBuf
  rw [show content.expanded.type = content.type from rfl]
  have items : (range content.type.numElements).mapM (content.getItem convert outT) =
      (range content.type.numElements).mapM (content.expanded.getItem convert outT) :=
    Attempt.mapM_congr fun ind mem => (getItem_splat stored.splat ind).trans
      (getItem_expanded stored (mem_range.mp mem)).symm
  rw [items]

end

theorem flatten_replicate_injective {one other : List UInt8} (pos : 0 < count)
    (same : (List.replicate count one).flatten = (List.replicate count other).flatten) :
    one = other := by
  have lengths := congrArg length same
  rw [length_flatten_replicate, length_flatten_replicate] at lengths
  obtain ⟨more, rfl⟩ := Nat.exists_eq_succ_of_ne_zero pos.ne'
  exact append_inj_left same (Nat.eq_of_mul_eq_mul_left pos lengths)

theorem copyTo_expanded_of_eq (stored : content.StoresSplat convert)
    (whole : 8 ≤ content.type.elemType.size) (own : content.type.elemType = content.storageElemType)
    (length : target.length = content.type.totalAllocSize) :
    content.copyTo convert target = content.expanded.copyTo convert target ↔
      match dispatchByElemType content.type.elemType with
      | some outT => content.type.numElements = 0 ∨
          cvt convert outT outT content.data = some content.data
      | none => content.type.totalAllocSize <
          content.type.numElements * content.data.length := by
  have notBool : content.storageElemType ≠ boolType := fun isBool => by
    rw [own, isBool] at whole
    exact absurd whole (by decide)
  have denseData : content.expanded.data =
      (replicate content.type.numElements content.data).flatten := if_neg notBool
  have isDense : content.expanded.copyTo convert target =
      if content.type.numElements * content.data.length ≤ target.length then
        some (content.expanded.data ++ target.drop content.expanded.data.length) else none := by
    unfold Content.copyTo
    rw [show content.expanded.type = content.type from rfl,
      if_neg whole.not_gt, if_pos ⟨rfl, own⟩, denseData, length_flatten_replicate]
  have isSplat : content.copyTo convert target =
      (dispatchByElemType content.type.elemType).bind fun outT =>
        content.fillBuf convert outT target := by
    unfold Content.copyTo
    rw [if_neg whole.not_gt,
      if_neg fun both => Bool.noConfusion (stored.splat.symm.trans both.1)]
  rw [isDense, isSplat, length]
  cases dispatched : dispatchByElemType content.type.elemType with
  | none =>
    split
    · rename_i room
      exact iff_of_false (Option.some_ne_none _).symm room.not_gt
    · rename_i tooLarge
      exact iff_of_true rfl (not_le.mp tooLarge)
  | some outT =>
    have size := size_of_dispatch dispatched whole
    have isSize : content.storageElemType.byteSize = some outT.sizeof := by
      rw [ElemType.byteSize, ← own, size, if_pos (Nat.mul_mod_right _ _),
        Nat.mul_div_cancel_left _ (by decide)]
    have isLength := stored.length_data isSize
    have total := totalAllocSize_of_dispatch dispatched whole
    have item : content.getItem convert outT 0 = cvt convert outT outT content.data := by
      unfold Content.getItem
      rw [← own, dispatched, Option.bind_some, if_neg whole.not_gt, if_pos stored.splat,
        size, Nat.mul_div_cancel_left _ (by decide), if_pos isLength]
    have filled : content.fillBuf convert outT target =
        if content.type.numElements = 0 then some [] else
          (cvt convert outT outT content.data).map fun value =>
            (replicate content.type.numElements value).flatten := by
      unfold Content.fillBuf
      rw [length, total, if_pos le_rfl, fillBuf_splat stored.splat, item, ← total, ← length,
        drop_length]
      split
      · rfl
      · cases cvt convert outT outT content.data with
        | none => rfl
        | some value => exact congrArg some (append_nil _)
    have denseLength : content.expanded.data.length = target.length := by
      rw [denseData, length_flatten_replicate, isLength, length, total]
    rw [Option.bind_some, filled, total, isLength, if_pos le_rfl, denseLength, drop_length,
      append_nil, denseData]
    dsimp only
    split
    · rename_i none
      rw [none]
      exact iff_of_true rfl (.inl rfl)
    · rename_i some
      rw [or_iff_right some]
      cases cvt convert outT outT content.data with
      | none => exact iff_of_false (Option.some_ne_none _).symm (Option.some_ne_none _).symm
      | some value =>
        rw [Option.map_some, Option.some.injEq, Option.some.injEq]
        exact ⟨flatten_replicate_injective (Nat.pos_of_ne_zero some), fun same => by rw [same]⟩

theorem copyTo_of_small (stored : content.StoresSplat convert)
    (small : content.type.elemType.size < 8) (isValue : content.subByteValue convert = some value) :
    content.copyTo convert target = some (List.replicate target.length
      (Content.splatByte content.type.elemType.size value)) := by
  unfold Content.copyTo
  rw [if_pos small, Content.copySubByteContent, if_pos stored.splat, isValue]
  rfl

theorem totalAllocSize_le (small : content.type.elemType.size < 8) :
    content.type.totalAllocSize ≤ content.type.numElements := by
  have bits := mul_le_mul_left content.type.numElements (le_of_lt_succ small)
  unfold NDType.totalAllocSize
  omega

theorem length_data_pos (stored : content.StoresSplat convert) : 0 < content.data.length := by
  have pos := content.storageElemType.size_pos
  rw [stored.stored]
  omega

theorem packValues_expanded (stored : content.StoresSplat convert)
    (notBool : content.storageElemType ≠ boolType)
    (isValue : content.subByteValue convert = some value)
    (isCount : content.type.numElements = count * size) (few : count ≤ 8)
    (power : Content.isPowerOfTwo count = true) :
    content.expanded.packValues convert count size =
      some (List.replicate size (Content.packByte (8 / count) (List.replicate count value))) := by
  have pos : 0 < count := of_decide_eq_true (Bool.and_eq_true_iff.mp power).1
  have numBytes : (content.type.numElements + count - 1) / count = size := by
    rw [isCount, Nat.add_sub_assoc pos, Nat.mul_add_div pos,
      Nat.div_eq_of_lt (Nat.sub_lt pos Nat.one_pos), Nat.add_zero]
  unfold Content.packValues
  dsimp only
  rw [show content.expanded.type = content.type from rfl, if_pos ⟨few, power⟩, numBytes,
    if_pos le_rfl]
  have values : ∀ idx ∈ range size, ((range count).mapM fun elemIdx =>
      content.expanded.getInt8 convert (idx * count + elemIdx)) =
        some (replicate count value) := by
    intro idx isIdx
    rw [Attempt.mapM_congr fun elemIdx isElem => getInt8_expanded stored ?_ notBool isValue,
      Attempt.mapM_replicate, length_range]
    rw [mem_range] at isIdx isElem
    calc idx * count + elemIdx < idx * count + count := Nat.add_lt_add_left isElem _
      _ = (idx + 1) * count := (succ_mul _ _).symm
      _ ≤ size * count := mul_le_mul_right _ isIdx
      _ = content.type.numElements := by rw [isCount, mul_comm]
  rw [Attempt.mapM_congr fun idx isIdx => by rw [values idx isIdx, Option.map_some],
    Attempt.mapM_replicate, length_range]

theorem packValues_eq_none (pos : 0 < count) (beyond : count * size < content.type.numElements) :
    content.packValues convert count size = none := by
  have tooMany : ¬ (content.type.numElements + count - 1) / count ≤ size := by
    rw [not_le, lt_iff_add_one_le, le_div_iff_mul_le pos, succ_mul, mul_comm]
    omega
  unfold Content.packValues
  rw [if_neg tooMany, ite_self]

theorem copyTo_expanded_of_small (stored : content.StoresSplat convert)
    (small : content.type.elemType.size < 8) (notBool : content.storageElemType ≠ boolType)
    (isValue : content.subByteValue convert = some value)
    (isSize : content.type.totalAllocSize = size) (length : target.length = size) :
    content.expanded.copyTo convert target =
      if size = content.type.numElements * content.data.length then some content.expanded.data
      else if content.type.numElements % size = 0 ∧ content.type.numElements / size ≤ 8 ∧
          Content.isPowerOfTwo (content.type.numElements / size) = true then
        some (List.replicate size (Content.packByte (8 / (content.type.numElements / size))
          (List.replicate (content.type.numElements / size) value)))
      else none := by
  have denseLength : content.expanded.data.length =
      content.type.numElements * content.data.length := by
    rw [show content.expanded.data = (replicate content.type.numElements
      content.data).flatten from if_neg notBool, length_flatten_replicate]
  have notMore : size ≤ content.type.numElements := isSize ▸ totalAllocSize_le small
  have elements := Nat.le_mul_of_pos_right content.type.numElements (length_data_pos stored)
  unfold Content.copyTo
  rw [show content.expanded.type = content.type from rfl, if_pos small,
    Content.copySubByteContent, if_neg expanded_dense,
    show content.expanded.type = content.type from rfl, denseLength, length]
  split
  · rename_i packed
    rw [if_neg packed.ne]
    have split := Nat.div_add_mod content.type.numElements size
    have sizePositive : 0 < size := Nat.pos_of_ne_zero fun isZero => by
      have bits := content.type.elemType.size_pos
      have none : content.type.numElements = 0 := by
        by_contra some
        have product := Nat.mul_pos (Nat.pos_of_ne_zero some) bits
        rw [← isSize, NDType.totalAllocSize] at isZero
        omega
      rw [none, Nat.zero_mul] at packed
      exact Nat.not_lt_zero _ packed
    have someValues : 0 < content.type.numElements / size := Nat.div_pos notMore sizePositive
    by_cases divides : content.type.numElements % size = 0
    · have isCount : content.type.numElements = content.type.numElements / size * size := by
        rw [Nat.mul_comm]
        omega
      rw [if_pos (by rw [Nat.mul_mod, divides, Nat.zero_mul, Nat.zero_mod])]
      dsimp only
      split
      · rename_i fits
        rw [packValues_expanded stored notBool isValue isCount fits.2.1 fits.2.2, Option.map_some,
          length_replicate, ← length, drop_length, append_nil]
      · rename_i rejected
        have none : content.expanded.packValues convert (content.type.numElements / size) size =
            none := by
          exact if_neg fun both => rejected ⟨divides, both⟩
        rw [none]
        rfl
    · have rejected : ¬ (content.type.numElements % size = 0 ∧ content.type.numElements / size ≤ 8 ∧
          Content.isPowerOfTwo (content.type.numElements / size) = true) := fun all => divides all.1
      dsimp only
      split
      · have none : content.expanded.packValues convert (content.type.numElements / size) size =
            none := by
          refine packValues_eq_none someValues ?_
          rw [show content.expanded.type = content.type from rfl, Nat.mul_comm]
          omega
        rw [none]
        rfl
      · rfl
  · rename_i full
    have isFull : size = content.type.numElements * content.data.length := by omega
    rw [if_pos isFull, ← isFull, ← length, drop_length, append_nil]

theorem isPowerOfTwo_cases (few : count ≤ 8) (power : Content.isPowerOfTwo count = true) :
    count = 1 ∨ count = 2 ∨ count = 4 ∨ count = 8 := by
  have table : ∀ count ≤ 8, Content.isPowerOfTwo count = true →
      count = 1 ∨ count = 2 ∨ count = 4 ∨ count = 8 := by decide
  exact table count few power

theorem fields_of_size {numElements : Nat} (pos : 0 < size)
    (isSize : (numElements * bits + 7) / 8 = size) (isCount : numElements = count * size) :
    count * bits ≤ 8 ∧ (count * bits = 8 ↔ numElements * bits % 8 = 0) := by
  have bitCount : numElements * bits = size * (count * bits) := by
    rw [isCount]
    ring
  rw [bitCount] at isSize ⊢
  have enough : size * (count * bits) ≤ size * 8 := by omega
  refine ⟨Nat.le_of_mul_le_mul_left enough pos, fun full => ?_, fun whole => ?_⟩
  · rw [full, Nat.mul_mod_left]
  · refine Nat.eq_of_mul_eq_mul_left pos ?_
    omega

/-- A stored value that takes its bytes alone, and values that are packed -/
theorem copyTo_small_iff (stored : content.StoresSplat convert)
    (small : content.type.elemType.size < 8) (notBool : content.storageElemType ≠ boolType)
    (isValue : content.subByteValue convert = some value)
    (lower : -2 ^ (content.type.elemType.size - 1) ≤ value)
    (upper : value < 2 ^ content.type.elemType.size) (isSize : content.type.totalAllocSize = size) :
    (∀ target : List UInt8, target.length = size →
      content.copyTo convert target = content.expanded.copyTo convert target) ↔
    content.type.numElements = 0 ∨ if size = content.type.numElements * content.data.length then
      content.data = [UInt8.ofInt (value * repeatedOnes content.type.elemType.size
        (8 / content.type.elemType.size))]
    else content.type.numElements % size = 0 ∧ content.type.numElements / size ≤ 8 ∧
      Content.isPowerOfTwo (content.type.numElements / size) = true ∧
        (value = 0 ∨ 0 ≤ value ∧ content.type.numElements * content.type.elemType.size % 8 = 0 ∨
          4 < content.type.elemType.size ∨
          value = -2 ∧ content.type.elemType.size = 3 ∧ content.type.numElements = 2 * size) := by
  have bytes : (∀ target : List UInt8, target.length = size →
      content.copyTo convert target = content.expanded.copyTo convert target) ↔
      some (replicate size (Content.splatByte content.type.elemType.size value)) =
        content.expanded.copyTo convert (replicate size 0) := by
    constructor
    · intro same
      have first := same (replicate size 0) length_replicate
      rwa [copyTo_of_small stored small isValue, length_replicate] at first
    · intro same target length
      rw [copyTo_of_small stored small isValue, length, same,
        copyTo_expanded_of_small stored small notBool isValue isSize length,
        copyTo_expanded_of_small stored small notBool isValue isSize length_replicate]
  rw [bytes, copyTo_expanded_of_small stored small notBool isValue isSize length_replicate]
  have notMore : size ≤ content.type.numElements := isSize ▸ totalAllocSize_le small
  have someData := length_data_pos stored
  have denseData : content.expanded.data =
      (replicate content.type.numElements content.data).flatten := if_neg notBool
  by_cases none : content.type.numElements = 0
  · have noBytes : size = 0 := by omega
    rw [denseData, none, noBytes, zero_mul, if_pos rfl]
    exact iff_of_true rfl (.inl rfl)
  · rw [or_iff_right none]
    have someElements := pos_of_ne_zero none
    have sizePositive : 0 < size := by
      have product := mul_pos someElements content.type.elemType.size_pos
      rw [← isSize, NDType.totalAllocSize]
      omega
    split
    · rename_i isFull
      have single : content.data.length = 1 := by
        have oneAtMost : content.type.numElements * content.data.length ≤
            content.type.numElements * 1 := by omega
        have atMost := le_of_mul_le_mul_left oneAtMost someElements
        omega
      obtain ⟨byte, isByte⟩ := length_eq_one_iff.mp single
      have isNumber : size = content.type.numElements := by rw [isFull, single, mul_one]
      rw [denseData, isByte, flatten_replicate_singleton, isNumber, Option.some.injEq,
        ← splatByte_eq, cons.injEq, and_iff_left rfl, eq_comm, replicate_inj]
      exact ⟨fun same => same.2.resolve_left none, fun same => ⟨rfl, .inr same⟩⟩
    · split
      · rename_i packed
        obtain ⟨divides, few, power⟩ := packed
        have isCount : content.type.numElements = content.type.numElements / size * size :=
          (Nat.div_mul_cancel (Nat.dvd_of_mod_eq_zero divides)).symm
        obtain ⟨fits, full⟩ := fields_of_size sizePositive isSize isCount
        have two : content.type.numElements / size = 2 ↔ content.type.numElements = 2 * size :=
          ⟨fun isTwo => isTwo ▸ isCount, fun isTwo => by
            rw [isTwo, Nat.mul_div_cancel _ sizePositive]⟩
        rw [and_iff_right divides, and_iff_right few, and_iff_right power, ← full, ← two,
          ← packByte_eq_splatByte_iff content.type.elemType.size_pos small
            (isPowerOfTwo_cases few power) fits lower upper, Option.some.injEq,
          replicate_inj]
        exact ⟨fun same => (same.2.resolve_left sizePositive.ne').symm,
          fun same => ⟨rfl, .inr same.symm⟩⟩
      · rename_i rejected
        exact iff_of_false (Option.some_ne_none _) fun all => rejected ⟨all.1, all.2.1, all.2.2.1⟩

theorem copyTo_expanded_of_bool (small : content.type.elemType.size < 8)
    (isBool : content.storageElemType = boolType) {size : Nat}
    (isSize : content.type.totalAllocSize = size) (length : target.length = size) :
    (content.type.numElements + 7) / 8 ≤ size ∧ content.expanded.copyTo convert target =
      some (packedBits content.type.numElements ((content.data.headD 0).toNat.testBit 0) ++
        target.drop ((content.type.numElements + 7) / 8)) := by
  have denseData : content.expanded.data = packedBits content.type.numElements
      ((content.data.headD 0).toNat.testBit 0) := if_pos isBool
  have denseLength : content.expanded.data.length = (content.type.numElements + 7) / 8 := by
    rw [denseData, packedBits, length_map, length_range]
  have room : (content.type.numElements + 7) / 8 ≤ size := by
    have bits := Nat.le_mul_of_pos_right content.type.numElements content.type.elemType.size_pos
    rw [← isSize, NDType.totalAllocSize]
    omega
  refine ⟨room, ?_⟩
  unfold Content.copyTo
  rw [show content.expanded.type = content.type from rfl, if_pos small,
    Content.copySubByteContent, if_neg expanded_dense,
    denseLength, length, if_neg room.not_gt, denseData]

/-- The byte of a splat of ones, and the last byte of packed ones -/
theorem packedBits_eq_iff (some : 0 < count) (pos : 0 < bits) (small : bits < 8)
    (isSize : (count * bits + 7) / 8 = (count + 7) / 8) :
    packedBits count true = List.replicate ((count + 7) / 8) (Content.splatByte bits 1) ↔
      bits = 1 ∧ count % 8 = 0 ∨ 4 < bits ∧ count = 1 := by
  have allBytes : packedBits count true =
      replicate ((count + 7) / 8) (Content.splatByte bits 1) ↔
        ∀ byte < (count + 7) / 8,
          UInt8.ofNat (2 ^ min 8 (count - 8 * byte) - 1) = Content.splatByte bits 1 := by
    rw [packedBits, eq_replicate_iff, length_map, length_range, and_iff_right rfl, forall_mem_map]
    simp only [mem_range, if_true]
  rw [allBytes]
  rcases eq_or_lt_of_le (one_le_iff_ne_zero.mpr pos.ne') with rfl | several
  · have isFull : ∀ ones ≤ 8, UInt8.ofNat (2 ^ ones - 1) = Content.splatByte 1 1 ↔ ones = 8 := by
      decide
    constructor
    · intro same
      have last := (isFull _ (min_le_left _ _)).mp (same ((count + 7) / 8 - 1) (by omega))
      exact .inl ⟨rfl, by omega⟩
    · intro condition byte inside
      refine (isFull _ (min_le_left _ _)).mpr ?_
      omega
  · have few : count < 5 := by
      have twice := mul_le_mul_left count several
      omega
    have single : (count + 7) / 8 = 1 := by omega
    have table : ∀ bits < 8, ∀ count < 5,
        (1 < bits ∧ 0 < count ∧ (count * bits + 7) / 8 = 1) →
          (UInt8.ofNat (2 ^ min 8 count - 1) = Content.splatByte bits 1 ↔
            4 < bits ∧ count = 1) := by
      decide
    rw [single, or_iff_right fun one => absurd one.1 several.ne',
      ← table bits small count few ⟨several, some, isSize.trans single⟩]
    exact ⟨fun same => same 0 Nat.one_pos, fun same byte inside => by rwa [lt_one_iff.mp inside]⟩

theorem copyTo_bool_iff (stored : content.StoresSplat convert)
    (small : content.type.elemType.size < 8) (isBool : content.storageElemType = boolType)
    (isValue : content.subByteValue convert = some value)
    (isSize : content.type.totalAllocSize = size) :
    (∀ target : List UInt8, target.length = size →
      content.copyTo convert target = content.expanded.copyTo convert target) ↔
    content.type.numElements = 0 ∨ size = (content.type.numElements + 7) / 8 ∧
      (value = 0 ∨ content.type.elemType.size = 1 ∧ content.type.numElements % 8 = 0 ∨
        4 < content.type.elemType.size ∧ content.type.numElements = 1) := by
  obtain ⟨front, isFront⟩ : ∃ front, content.data = [front] := by
    refine length_eq_one_iff.mp ?_
    rw [stored.stored, isBool]
    rfl
  have isBit : value = ((front.toNat % 2 : Nat) : Int) := by
    rw [Content.subByteValue, if_pos (show content.storageElemType = .scalar
      (.integer .signless 1) from isBool), isFront] at isValue
    exact (Option.some.inj isValue).symm
  have room := (@copyTo_expanded_of_bool convert content (replicate size 0) small isBool
    size isSize length_replicate).1
  have dense : ∀ target : List UInt8, target.length = size →
      content.expanded.copyTo convert target =
        some (packedBits content.type.numElements (decide (front.toNat % 2 = 1)) ++
          target.drop ((content.type.numElements + 7) / 8)) := by
    intro target length
    rw [(copyTo_expanded_of_bool small isBool isSize length).2, isFront, headD_cons,
      Nat.testBit_zero]
  have packedLength : ∀ bit, (packedBits content.type.numElements bit).length =
      (content.type.numElements + 7) / 8 := fun bit => by
    rw [packedBits, length_map, length_range]
  have zeros : packedBits content.type.numElements false =
      replicate ((content.type.numElements + 7) / 8) 0 := by
    simp [packedBits]
  have zeroByte : Content.splatByte content.type.elemType.size 0 = 0 := by
    rw [splatByte_eq, Int.zero_mul]
    rfl
  constructor
  · intro same
    refine or_iff_not_imp_left.mpr fun some => ?_
    have isSizeOfBits : size = (content.type.numElements + 7) / 8 := by
      refine Nat.le_antisymm (not_lt.mp fun longer => ?_) room
      -- The bytes behind the bits are left as they are.
      have other := same (replicate size
        (Content.splatByte content.type.elemType.size value + 1)) length_replicate
      rw [copyTo_of_small stored small isValue, dense _ length_replicate,
        length_replicate, Option.some.injEq] at other
      have behind := congrArg (fun bytes : List UInt8 =>
        bytes[(content.type.numElements + 7) / 8]?) other
      beta_reduce at behind
      rw [getElem?_append_right (packedLength _).le, packedLength, Nat.sub_self,
        getElem?_drop, getElem?_replicate, if_pos longer, getElem?_replicate,
        Nat.add_zero, if_pos longer, Option.some.injEq] at behind
      exact ne_add_one _ behind
    refine ⟨isSizeOfBits, ?_⟩
    have first := same (replicate size 0) length_replicate
    rw [copyTo_of_small stored small isValue, dense _ length_replicate,
      length_replicate, Option.some.injEq, ← isSizeOfBits,
      drop_eq_nil_of_le length_replicate.le, append_nil, isBit] at first
    rcases Nat.mod_two_eq_zero_or_one front.toNat with even | odd
    · exact .inl (isBit.trans (by rw [even]; rfl))
    · rw [odd, decide_eq_true rfl, isSizeOfBits] at first
      exact .inr ((packedBits_eq_iff (Nat.pos_of_ne_zero some) content.type.elemType.size_pos
        small (isSize.trans isSizeOfBits)).mp first.symm)
  · intro condition target length
    rw [copyTo_of_small stored small isValue, dense target length, length]
    rcases Nat.eq_zero_or_pos content.type.numElements with none | some
    · have noBytes : size = 0 := by
        rw [← isSize, NDType.totalAllocSize, none, Nat.zero_mul]
      rw [noBytes, eq_nil_of_length_eq_zero (length.trans noBytes), none]
      rfl
    · obtain ⟨isSizeOfBits, condition⟩ := condition.resolve_left some.ne'
      rw [drop_eq_nil_of_le (length.trans isSizeOfBits).le, append_nil, isSizeOfBits]
      refine congrArg Option.some ?_
      rcases Nat.mod_two_eq_zero_or_one front.toNat with even | odd
      · rw [isBit, even, show decide (0 = 1) = false from rfl, zeros]
        exact congrArg _ zeroByte
      · rw [isBit, odd] at condition ⊢
        exact ((packedBits_eq_iff some content.type.elemType.size_pos small
          (isSize.trans isSizeOfBits)).mpr (condition.resolve_left (by decide))).symm

theorem copyTo_expanded_iff (stored : content.StoresSplat convert) :
    (∀ target : List UInt8, target.length = content.type.totalAllocSize →
      content.copyTo convert target = content.expanded.copyTo convert target) ↔
      content.CopiesAlike convert := by
  unfold Content.CopiesAlike
  dsimp only
  split
  · rename_i whole
    by_cases own : content.type.elemType = content.storageElemType
    · rw [forall_prop_of_true own]
      constructor
      · intro same
        exact (copyTo_expanded_of_eq stored whole own length_replicate).mp
          (same (replicate content.type.totalAllocSize 0) length_replicate)
      · intro condition target length
        exact (copyTo_expanded_of_eq stored whole own length).mpr condition
    · exact iff_of_true (fun _ _ => copyTo_expanded_of_ne stored whole own) fun isOwn =>
        absurd isOwn own
  · rename_i notWhole
    have small := not_le.mp notWhole
    obtain ⟨value, isValue, lower, upper⟩ := stored.inType small
    simp only [isValue, Option.some.injEq, exists_eq_left']
    split
    · rename_i isBool
      exact copyTo_bool_iff stored small isBool isValue rfl
    · rename_i notBool
      exact copyTo_small_iff stored small notBool isValue lower upper rfl

end

/-! ### Splats and stored elements -/

/-- A splat is copied like its elements under some conditions only. A pad always gives the same, a
broadcast does for a multiple of the size of its axis, and a dilation reads behind the splat. -/
theorem splat_transparent_iff {convert : FloatConversion} {content : Content}
    (sized : convert.Sized) (stored : content.StoresSplat convert) :
    ((∀ target : List UInt8, target.length = content.type.totalAllocSize →
      content.copyTo convert target = content.expanded.copyTo convert target) ↔
        content.CopiesAlike convert) ∧
    (∀ (attr : PadWithZeroAttr) (memory otherMemory : Nat → UInt8),
      SameElements (attr.transform convert memory content)
        (attr.transform convert otherMemory content.expanded) ∧
      ∀ outputType, attr.inferOutputType content.type = some outputType →
        AcceptsZeros convert content outputType →
          (attr.transform convert memory content).isSome) ∧
    (∀ (attr : BroadcastAttr) (memory otherMemory : Nat → UInt8),
      (SameElements (attr.transform memory content) (attr.transform otherMemory content.expanded) ↔
        ∀ outputType, attr.inferOutputType content.type = some outputType →
          content.storageElemType.size % 8 = 0 ∧ content.type.shape.getD attr.axis 0 ≠ 0 ∧
            attr.value % content.type.shape.getD attr.axis 0 = 0) ∧
      ∀ outputType, attr.inferOutputType content.type = some outputType →
        (attr.transform memory content).isSome) ∧
    ∀ (attr : ExpandDilatedAttr) (memory otherMemory : Nat → UInt8),
      SameElements (attr.transform convert memory content)
          (attr.transform convert otherMemory content.expanded) ↔
        ∀ outputType, attr.inferOutputType content.type = some outputType →
          AcceptsZeros convert content outputType → content.type.numElements ≤ 1 := by
  refine ⟨copyTo_expanded_iff stored, fun attr memory otherMemory => ⟨?_, ?_⟩,
    fun attr memory otherMemory => ⟨?_, ?_⟩, ?_⟩
  · rw [attr.transform_expanded sized stored memory otherMemory]
    exact SameElements.refl _
  · exact fun outputType => attr.isSome_transform sized stored memory
  · exact attr.transform_expanded_iff stored memory otherMemory
  · intro outputType inferred
    rw [BroadcastAttr.transform_splat stored inferred memory]
    rfl
  · exact ExpandDilatedAttr.transform_expanded_iff sized stored

def int4 : ElemType := .scalar (.integer .signed 4)

def int8 : ElemType := .scalar (.integer .signed 8)

/-- Two numbers of four bits, stored once in a byte -/
def twoNumbers (byte : UInt8) : Content where
  type := ⟨[1, 1, 1, 2], .NCHW, int4, by decide⟩
  storageElemType := int8
  isSplat := true
  data := [byte]

def noFloats : FloatConversion := fun _ _ _ => none

theorem twoNumbers_stored {byte : UInt8} {value : Int}
    (isValue : (twoNumbers byte).subByteValue noFloats = some value) (lower : -8 ≤ value)
    (upper : value < 16) : (twoNumbers byte).StoresSplat noFloats where
  splat := rfl
  stored := (by decide : 1 = (int8.size + 7) / 8)
  inType _ := ⟨value, isValue, lower, upper⟩

theorem twoNumbers_transparent :
    ((∀ target : List UInt8, target.length = (twoNumbers 1).type.totalAllocSize →
      (twoNumbers 1).copyTo noFloats target = (twoNumbers 1).expanded.copyTo noFloats target) ↔
        (twoNumbers 1).CopiesAlike noFloats) :=
  (splat_transparent_iff (fun _ _ _ _ (failed : none = some _) =>
      absurd failed.symm (Option.some_ne_none _))
    (twoNumbers_stored (show _ = some 1 by decide) (by decide) (by decide))).1

/-- Both numbers are minus one. The splat is not masked, and a dilation reads a second number. -/
theorem twoNumbers_not_transparent :
    (twoNumbers 0xFF).copyTo noFloats [0] = some [0xEF] ∧
      (twoNumbers 0xFF).expanded.copyTo noFloats [0] = some [0xFF] ∧
      ¬ SameElements
        (ExpandDilatedAttr.transform ⟨[1, 2]⟩ noFloats (fun _ => 0) (twoNumbers 0xFF))
        (ExpandDilatedAttr.transform ⟨[1, 2]⟩ noFloats (fun _ => 0)
          (twoNumbers 0xFF).expanded) := by
  refine ⟨by decide, by decide, fun same => ?_⟩
  exact same

end NpuPlugin.ConstTransformations
