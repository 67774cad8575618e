/-
This file models the swizzling of a constant and its inverse. Addresses are unsigned words of 32
bits. It shows that the address map is a rotation of each row, and when de-swizzling gives the bytes
of the constant back.
-/

import Mathlib.Data.FinEnum
import Mathlib.Data.Nat.ModEq
import NpuPlugin.Library.Copies
import NpuPlugin.Library.Words
import NpuPlugin.ConstTransformations.Content

namespace NpuPlugin.ConstTransformations

open Copies List Nat

/-! ### The address map -/

inductive ArchKind
  | UNKNOWN
  | NPU37XX
  | NPU40XX
deriving DecidableEq, Repr

def LOG2_RAM_CUT_DATA_WIDTH : UInt32 := 4
def LOG2_RAM_CUT_BYTES : UInt32 := LOG2_RAM_CUT_DATA_WIDTH + 5
def RAM_CUT_ADDRESS_MASK : UInt32 := (1 <<< LOG2_RAM_CUT_BYTES) - 1
def CUT_ADDRESS_MASK_10b : UInt32 := ((1 : UInt32) <<< 11) - 1
def MAX_SWIZZLE_KEY : UInt32 := 5

structure AddressTransform where
  staggerAddressBits : UInt32
  staggerAddressMask : UInt32
  shift : UInt32
  log2RamCutDataWidth : UInt32
  ramCutAddressMask : UInt32
deriving DecidableEq, Repr

namespace AddressTransform

def setStaggerBits (bits : UInt32) (archKind : ArchKind) : Option AddressTransform :=
  let staggerAddressBits := bits % (MAX_SWIZZLE_KEY + 1)
  let staggerAddressMask := (1 <<< staggerAddressBits) - 1
  let shift := LOG2_RAM_CUT_BYTES - staggerAddressBits
  match archKind with
  | .NPU40XX => some ⟨staggerAddressBits, staggerAddressMask, shift + 1,
      LOG2_RAM_CUT_DATA_WIDTH + 1, (1 <<< (LOG2_RAM_CUT_BYTES + 1)) - 1⟩
  | .NPU37XX => some ⟨staggerAddressBits, staggerAddressMask, shift, LOG2_RAM_CUT_DATA_WIDTH,
      RAM_CUT_ADDRESS_MASK⟩
  | .UNKNOWN => none

def getPhysicalAddress (addressTransform : AddressTransform) (dpuAddr : UInt32) : UInt32 :=
  let addrStagger := dpuAddr >>> addressTransform.log2RamCutDataWidth
  let addrStagger := addrStagger &&& CUT_ADDRESS_MASK_10b
  let addrStagger := addrStagger >>> MAX_SWIZZLE_KEY
  let addrStagger := addrStagger &&& addressTransform.staggerAddressMask
  let addrStagger := addrStagger <<< addressTransform.shift
  let phyAddr := dpuAddr + addrStagger
  let phyAddr := phyAddr &&& addressTransform.ramCutAddressMask
  phyAddr + (dpuAddr &&& ~~~ addressTransform.ramCutAddressMask)

end AddressTransform

/-! ### The buffers -/

def getSizeAlignmentForSwizzling : ArchKind → Option Nat
  | .NPU37XX => some 512
  | .NPU40XX => some 1024
  | .UNKNOWN => none

def alignSizeForSwizzling (size sizeAlignment : Nat) : Nat :=
  if size % sizeAlignment ≠ 0 then size + (sizeAlignment - size % sizeAlignment) else size

/-- Both loops copy one word after the other and count the address of the unit that reads them. -/
def copyWords (addressTransform : AddressTransform) (inSize : Nat)
    (place : UInt32 → UInt32 → UInt32 × UInt32) (source buffer : List UInt8) :
    Option (List UInt8) :=
  let copyDataWidth := 2 ^ addressTransform.log2RamCutDataWidth.toNat
  let iterations := (inSize + (copyDataWidth - 1)) / copyDataWidth
  ((List.range iterations).foldlM (fun ((dpuAddr, buffer) : UInt32 × List UInt8) _ => do
    let (origin, target) := place dpuAddr (addressTransform.getPhysicalAddress dpuAddr)
    let buffer ← copyBytes source origin.toNat copyDataWidth buffer target.toNat
    some (dpuAddr + UInt32.ofNat copyDataWidth, buffer)) (0, buffer)).map Prod.snd

def swizzle (addressTransform : AddressTransform) (source swizzledBuffer : List UInt8) :
    Option (List UInt8) :=
  copyWords addressTransform source.length (fun dpuAddr phyAddr => (dpuAddr, phyAddr)) source
    swizzledBuffer

def deswizzle (addressTransform : AddressTransform) (source deSwizzledBuffer : List UInt8) :
    Option (List UInt8) :=
  copyWords addressTransform source.length (fun dpuAddr phyAddr => (phyAddr, dpuAddr)) source
    deSwizzledBuffer

/-- `BufferSwizzleTransform::deswizzle` for a key and an architecture -/
def deswizzleBuffer (swizzleKey : UInt32) (archKind : ArchKind)
    (source deSwizzledBuffer : List UInt8) : Option (List UInt8) :=
  (AddressTransform.setStaggerBits swizzleKey archKind).bind fun addressTransform =>
    deswizzle addressTransform source deSwizzledBuffer

/-! ### The transformation -/

structure SwizzleConstantAttr where
  swizzleKey : Nat
  arch : ArchKind

namespace SwizzleConstantAttr

def inferOutputType (attr : SwizzleConstantAttr) (inputType : NDType) : Option NDType := do
  let sizeAlignment ← getSizeAlignmentForSwizzling attr.arch
  let newSize := alignSizeForSwizzling inputType.totalAllocSize sizeAlignment
  guard (inputType.shape ≠ [])
  let newShape first := first :: List.replicate (inputType.shape.length - 1) 1
  if inputType.elemType.size = 1 then
    NDType.changeShapeElemType inputType.order (newShape (newSize * 8)) inputType.elemType
  else if inputType.elemType = .scalar (.float .f16) then
    NDType.changeShapeElemType inputType.order (newShape (newSize / 2)) inputType.elemType
  else
    NDType.changeShapeElemType inputType.order (newShape newSize) (.scalar (.integer .unsigned 8))

/-- The bytes of the input, and then those that fill the last row -/
def paddedInput (input : Content) (newSize : Nat) (bytes : List UInt8) : List UInt8 :=
  let padVal := if input.isSplat then bytes.headD 0 else 0
  bytes ++ List.replicate (newSize - bytes.length) padVal

def transform (attr : SwizzleConstantAttr) (convert : FloatConversion) (memory : Nat → UInt8)
    (input : Content) : Option Content := do
  guard (attr.swizzleKey < 2 ^ 31)
  let outputType ← attr.inferOutputType input.type
  let addressTransform ←
    AddressTransform.setStaggerBits (UInt32.ofNat attr.swizzleKey) attr.arch
  let sizeAlignment ← getSizeAlignmentForSwizzling attr.arch
  let inputTotalSize := input.type.totalAllocSize
  let newSize := alignSizeForSwizzling inputTotalSize sizeAlignment
  let bytes ← input.copyTo convert (List.replicate inputTotalSize 0)
  let inputValues := paddedInput input newSize bytes
  let storageElemType :=
    if input.type.elemType.size = 1 then input.storageElemType else outputType.elemType
  if input.isSplat then some ⟨outputType, storageElemType, false, inputValues⟩
  else
    let data ← swizzle addressTransform inputValues ((List.range newSize).map memory)
    some ⟨outputType, storageElemType, false, data⟩

end SwizzleConstantAttr

/-! ### The address map rotates the rows -/

section

variable {bits : UInt32} {archKind : ArchKind} {addressTransform : AddressTransform}

/-- The bytes of a row, and those of a word in it -/
def rowSize (addressTransform : AddressTransform) : Nat :=
  2 ^ (addressTransform.log2RamCutDataWidth.toNat + 5)

/-- How far a row is rotated -/
def stagger (addressTransform : AddressTransform) (row : Nat) : Nat :=
  row % 2 ^ addressTransform.staggerAddressBits.toNat *
    2 ^ (addressTransform.log2RamCutDataWidth.toNat + 5 - addressTransform.staggerAddressBits.toNat)

/-- What the fields of an address transform are. -/
structure AddressTransform.Valid (addressTransform : AddressTransform) : Prop where
  bits : addressTransform.staggerAddressBits.toNat ≤ 5
  mask : addressTransform.staggerAddressMask.toNat =
    2 ^ addressTransform.staggerAddressBits.toNat - 1
  shift : addressTransform.shift.toNat =
    addressTransform.log2RamCutDataWidth.toNat + 5 - addressTransform.staggerAddressBits.toNat
  width : addressTransform.log2RamCutDataWidth.toNat = 4 ∨
    addressTransform.log2RamCutDataWidth.toNat = 5
  rowMask : addressTransform.ramCutAddressMask.toNat = rowSize addressTransform - 1

theorem setStaggerBits_valid
    (isSet : AddressTransform.setStaggerBits bits archKind = some addressTransform) :
    addressTransform.Valid := by
  have small : (bits % (MAX_SWIZZLE_KEY + 1)).toNat < 6 := by exact Nat.mod_lt _ (by decide)
  unfold AddressTransform.setStaggerBits at isSet
  generalize bits % (MAX_SWIZZLE_KEY + 1) = staggerAddressBits at isSet small
  have cases : staggerAddressBits = 0 ∨ staggerAddressBits = 1 ∨ staggerAddressBits = 2 ∨
      staggerAddressBits = 3 ∨ staggerAddressBits = 4 ∨ staggerAddressBits = 5 := by
    simp only [← UInt32.toNat_inj]
    simp only [UInt32.toNat_ofNat]
    omega
  cases archKind with
  | UNKNOWN => cases isSet
  | NPU37XX =>
    obtain rfl := Option.some.inj isSet
    rcases cases with rfl | rfl | rfl | rfl | rfl | rfl <;>
      exact ⟨by decide, by decide, by decide, by decide, by decide⟩
  | NPU40XX =>
    obtain rfl := Option.some.inj isSet
    rcases cases with rfl | rfl | rfl | rfl | rfl | rfl <;>
      exact ⟨by decide, by decide, by decide, by decide, by decide⟩

theorem stagger_lt (bits : addressTransform.staggerAddressBits.toNat ≤ 5)
    (width : addressTransform.log2RamCutDataWidth.toNat = 4 ∨
      addressTransform.log2RamCutDataWidth.toNat = 5) (row : Nat) :
    stagger addressTransform row < rowSize addressTransform := by
  have less : row % 2 ^ addressTransform.staggerAddressBits.toNat <
      2 ^ addressTransform.staggerAddressBits.toNat := Nat.mod_lt _ (Nat.two_pow_pos _)
  have split : rowSize addressTransform = 2 ^ addressTransform.staggerAddressBits.toNat *
      2 ^ (addressTransform.log2RamCutDataWidth.toNat + 5 -
        addressTransform.staggerAddressBits.toNat) := by
    rw [rowSize, ← Nat.pow_add]
    congr 1
    rcases width with four | five <;> omega
  rw [split]
  exact Nat.mul_lt_mul_of_pos_right less (Nat.two_pow_pos _)

/-- Each address stays in its row, which is rotated. -/
theorem getPhysicalAddress_toNat (valid : addressTransform.Valid) (dpuAddr : UInt32) :
    (addressTransform.getPhysicalAddress dpuAddr).toNat =
      dpuAddr.toNat / rowSize addressTransform * rowSize addressTransform +
        (dpuAddr.toNat % rowSize addressTransform +
          stagger addressTransform (dpuAddr.toNat / rowSize addressTransform)) %
            rowSize addressTransform := by
  obtain ⟨bits, mask, shift, width, rowMask⟩ := valid
  have widthLess : addressTransform.log2RamCutDataWidth.toNat < 32 := by
    rcases width with four | five <;> omega
  have shiftLess : addressTransform.shift.toNat < 32 := by rcases width with four | five <;> omega
  have rowLess : rowSize addressTransform ≤ 2 ^ 10 := by
    exact Nat.pow_le_pow_right (by decide) (by rcases width with four | five <;> omega)
  have rowPositive : 0 < rowSize addressTransform := Nat.two_pow_pos _
  have word := dpuAddr.toNat_lt
  -- The number of the row, from which the stagger is made
  have row : ((dpuAddr >>> addressTransform.log2RamCutDataWidth &&& CUT_ADDRESS_MASK_10b) >>>
      MAX_SWIZZLE_KEY &&& addressTransform.staggerAddressMask).toNat =
        dpuAddr.toNat / rowSize addressTransform %
          2 ^ addressTransform.staggerAddressBits.toNat := by
    have cutMask : CUT_ADDRESS_MASK_10b.toNat = 2 ^ 11 - 1 := by decide
    have maxKey : MAX_SWIZZLE_KEY.toNat % 32 = 5 := by decide
    have sixBits : 2 ^ addressTransform.staggerAddressBits.toNat ∣ 2 ^ 6 :=
      Nat.pow_dvd_pow 2 (by omega)
    rw [UInt32.toNat_and, UInt32.toNat_shiftRight, UInt32.toNat_and, UInt32.toNat_shiftRight,
      cutMask, maxKey, mask, Nat.mod_eq_of_lt widthLess, Nat.and_two_pow_sub_one_eq_mod,
      Nat.and_two_pow_sub_one_eq_mod, Nat.shiftRight_eq_div_pow, Nat.shiftRight_eq_div_pow,
      show 2 ^ 11 = 2 ^ 5 * 2 ^ 6 from rfl, Nat.mod_mul_right_div_self,
      Nat.mod_mod_of_dvd _ sixBits,
      Nat.div_div_eq_div_mul, rowSize, Nat.pow_add]
  have staggered : UInt32.toNat (((dpuAddr >>> addressTransform.log2RamCutDataWidth &&&
      CUT_ADDRESS_MASK_10b) >>> MAX_SWIZZLE_KEY &&& addressTransform.staggerAddressMask) <<<
        addressTransform.shift) =
          stagger addressTransform (dpuAddr.toNat / rowSize addressTransform) := by
    have less := stagger_lt bits width (dpuAddr.toNat / rowSize addressTransform)
    rw [UInt32.toNat_shiftLeft, row, Nat.mod_eq_of_lt shiftLess, shift, Nat.shiftLeft_eq]
    exact Nat.mod_eq_of_lt (less.trans (rowLess.trans_lt (by decide)))
  have rowDivides : rowSize addressTransform ∣ 2 ^ 32 :=
    Nat.pow_dvd_pow 2 (by rcases width with four | five <;> omega)
  have inRow : (dpuAddr &&& ~~~ addressTransform.ramCutAddressMask).toNat =
      dpuAddr.toNat / rowSize addressTransform * rowSize addressTransform := by
    rw [UInt32.toNat_and, UInt32.toNat_not, rowMask]
    exact Words.and_not_mask word (by rcases width with four | five <;> omega)
  have rotated : ∀ addrStagger : UInt32,
      (dpuAddr + addrStagger &&& addressTransform.ramCutAddressMask).toNat =
        (dpuAddr.toNat % rowSize addressTransform + addrStagger.toNat) %
          rowSize addressTransform := by
    intro addrStagger
    rw [UInt32.toNat_and, UInt32.toNat_add, rowMask, rowSize, Nat.and_two_pow_sub_one_eq_mod,
      ← rowSize, Nat.mod_mod_of_dvd _ rowDivides, Nat.mod_add_mod]
  have sum : dpuAddr.toNat / rowSize addressTransform * rowSize addressTransform +
      rowSize addressTransform ≤ 2 ^ 32 := by
    obtain ⟨rows, isRows⟩ := rowDivides
    have less : dpuAddr.toNat / rowSize addressTransform < rows :=
      Nat.div_lt_of_lt_mul (isRows ▸ word)
    rw [← Nat.succ_mul, isRows, Nat.mul_comm]
    exact Nat.mul_le_mul_left _ less
  unfold AddressTransform.getPhysicalAddress
  rw [UInt32.toNat_add, inRow, rotated, staggered, Nat.add_comm]
  refine Nat.mod_eq_of_lt (lt_of_lt_of_le ?_ sum)
  exact Nat.add_lt_add_left (Nat.mod_lt _ rowPositive) _

end

/-! ### The words -/

/-- A place in units that are counted again after some of them -/
theorem mul_add_mod_mul {size offset : Nat} (below : offset < size) (unit units : Nat) :
    (unit * size + offset) % (units * size) = unit % units * size + offset := by
  have pos : 0 < size := zero_lt_of_lt below
  rw [mul_comm units, mod_mul, mul_comm unit, mul_add_mod,
    mod_eq_of_lt below, mul_add_div pos, div_eq_of_lt below, add_zero,
    add_comm, mul_comm]

theorem mul_add_div_mul {size offset : Nat} (below : offset < size) (unit units : Nat) :
    (unit * size + offset) / (units * size) = unit / units := by
  have pos : 0 < size := Nat.zero_lt_of_lt below
  rw [Nat.mul_comm units, ← Nat.div_div_eq_div_mul, Nat.mul_comm unit, Nat.mul_add_div pos,
    Nat.div_eq_of_lt below, Nat.add_zero]

namespace AddressTransform

variable (addressTransform : AddressTransform)

def wordSize : Nat := 2 ^ addressTransform.log2RamCutDataWidth.toNat

/-- How many words have an address -/
def wordCount : Nat := 2 ^ (32 - addressTransform.log2RamCutDataWidth.toNat)

/-- Where the rotated row has a word. -/
def physicalWord (word : Nat) : Nat :=
  word / 32 * 32 + (word % 32 + word / 32 % 2 ^ addressTransform.staggerAddressBits.toNat *
    2 ^ (5 - addressTransform.staggerAddressBits.toNat)) % 32

theorem wordSize_pos : 0 < addressTransform.wordSize := Nat.two_pow_pos _

theorem rowSize_eq : rowSize addressTransform = 32 * addressTransform.wordSize := by
  rw [rowSize, pow_add, mul_comm]
  rfl

theorem physicalWord_row (word : Nat) : addressTransform.physicalWord word / 32 = word / 32 := by
  unfold physicalWord
  omega

theorem physicalWord_injective {one other : Nat}
    (same : addressTransform.physicalWord one = addressTransform.physicalWord other) :
    one = other := by
  have sameRow : one / 32 = other / 32 := by
    rw [← addressTransform.physicalWord_row, same, addressTransform.physicalWord_row]
  unfold physicalWord at same
  rw [sameRow] at same
  omega

theorem physicalWord_lt {word rows : Nat} (less : word < rows * 32) :
    addressTransform.physicalWord word < rows * 32 := by
  have sameRow := addressTransform.physicalWord_row word
  omega

variable {addressTransform}

section

variable (valid : addressTransform.Valid)
include valid

theorem wordCount_mul : addressTransform.wordCount * addressTransform.wordSize = 2 ^ 32 := by
  rw [wordCount, wordSize, ← pow_add]
  congr 1
  rcases valid.width with four | five <;> omega

theorem toNat_address (word : Nat) :
    (UInt32.ofNat (word * addressTransform.wordSize)).toNat =
      word % addressTransform.wordCount * addressTransform.wordSize := by
  rw [UInt32.toNat_ofNat', ← wordCount_mul valid]
  exact mul_mod_mul_right _ _ _

theorem stagger_eq (row : Nat) : stagger addressTransform row =
    row % 2 ^ addressTransform.staggerAddressBits.toNat *
      2 ^ (5 - addressTransform.staggerAddressBits.toNat) * addressTransform.wordSize := by
  have bits := valid.bits
  rw [stagger, wordSize, mul_assoc, ← pow_add]
  congr 2
  omega

theorem toNat_physicalAddress (word : Nat) :
    (addressTransform.getPhysicalAddress (UInt32.ofNat (word * addressTransform.wordSize))).toNat =
      addressTransform.physicalWord (word % addressTransform.wordCount) *
        addressTransform.wordSize := by
  rw [getPhysicalAddress_toNat valid, toNat_address valid, rowSize_eq, stagger_eq valid,
    Nat.mul_div_mul_right _ _ addressTransform.wordSize_pos, Nat.mul_mod_mul_right, ← Nat.add_mul,
    Nat.mul_mod_mul_right, ← Nat.mul_assoc, ← Nat.add_mul]
  rfl

end

theorem copyWords_eq {place : UInt32 → UInt32 → UInt32 × UInt32} (origins targets : Nat → Nat)
    (isOrigin : ∀ word,
      (place (UInt32.ofNat (word * addressTransform.wordSize)) (addressTransform.getPhysicalAddress
        (UInt32.ofNat (word * addressTransform.wordSize)))).1.toNat =
          origins word * addressTransform.wordSize) (isTarget : ∀ word,
      (place (UInt32.ofNat (word * addressTransform.wordSize)) (addressTransform.getPhysicalAddress
        (UInt32.ofNat (word * addressTransform.wordSize)))).2.toNat =
          targets word * addressTransform.wordSize) (inSize : Nat) (source buffer : List UInt8) :
    copyWords addressTransform inSize place source buffer =
      copyElements addressTransform.wordSize source ((List.range ((inSize +
        (addressTransform.wordSize - 1)) / addressTransform.wordSize)).map
          fun word => (targets word, origins word)) buffer := by
  have counted : ∀ words, (range words).foldlM
      (fun ((dpuAddr, buffer) : UInt32 × List UInt8) _ => do
        let (origin, target) := place dpuAddr (addressTransform.getPhysicalAddress dpuAddr)
        let buffer ← copyBytes source origin.toNat addressTransform.wordSize buffer target.toNat
        some (dpuAddr + UInt32.ofNat addressTransform.wordSize, buffer)) (0, buffer) =
      (copyElements addressTransform.wordSize source ((range words).map
        fun word => (targets word, origins word)) buffer).map fun after =>
          (UInt32.ofNat (words * addressTransform.wordSize), after) := by
    intro words
    induction words with
    | zero => simp [copyElements]
    | succ words ih =>
      rw [range_succ, foldlM_append, ih, map_append, copyElements_append]
      cases copied : copyElements addressTransform.wordSize source
        ((range words).map fun word => (targets word, origins word)) buffer with
      | none => rfl
      | some middle =>
        simp only [Option.map_some, Option.bind_eq_bind, Option.bind_some, foldlM_cons,
          foldlM_nil, isOrigin, isTarget]
        have single : copyElements addressTransform.wordSize source
            ([words].map fun word => (targets word, origins word)) middle =
              copyBytes source (origins words * addressTransform.wordSize)
                addressTransform.wordSize middle (targets words * addressTransform.wordSize) :=
          Option.bind_fun_some _
        rw [single, succ_mul, UInt32.ofNat_add]
        cases copyBytes source (origins words * addressTransform.wordSize)
          addressTransform.wordSize middle (targets words * addressTransform.wordSize) <;> rfl
  unfold copyWords
  dsimp only
  rw [show 2 ^ addressTransform.log2RamCutDataWidth.toNat = addressTransform.wordSize from rfl,
    counted, Option.map_map]
  exact Option.map_id'

section

variable (valid : addressTransform.Valid) {rows : Nat} {source buffer after : List UInt8}

include valid

section

variable (sourceLength : source.length = rows * 32 * addressTransform.wordSize)
include sourceLength

theorem swizzle_eq :
    swizzle addressTransform source buffer =
      copyElements addressTransform.wordSize source ((List.range (rows * 32)).map fun word =>
        (addressTransform.physicalWord (word % addressTransform.wordCount),
          word % addressTransform.wordCount)) buffer := by
  have pos := addressTransform.wordSize_pos
  unfold swizzle
  rw [copyWords_eq (fun word => word % addressTransform.wordCount)
    (fun word => addressTransform.physicalWord (word % addressTransform.wordCount))
    (toNat_address valid) (toNat_physicalAddress valid), sourceLength, mul_comm,
    mul_add_div pos, div_eq_of_lt (sub_lt pos one_pos), add_zero]

theorem deswizzle_eq :
    deswizzle addressTransform source buffer =
      copyElements addressTransform.wordSize source ((List.range (rows * 32)).map fun word =>
        (word % addressTransform.wordCount,
          addressTransform.physicalWord (word % addressTransform.wordCount))) buffer := by
  have pos := addressTransform.wordSize_pos
  unfold deswizzle
  rw [copyWords_eq (fun word => addressTransform.physicalWord (word % addressTransform.wordCount))
    (fun word => word % addressTransform.wordCount)
    (toNat_physicalAddress valid) (toNat_address valid), sourceLength, mul_comm,
    mul_add_div pos, div_eq_of_lt (sub_lt pos one_pos), add_zero]

end

omit valid in
theorem mod_wordCount (fits : rows * 32 ≤ addressTransform.wordCount) :
    ∀ word ∈ List.range (rows * 32), word % addressTransform.wordCount = word :=
  fun _ mem => mod_eq_of_lt ((mem_range.mp mem).trans_le fits)

section

variable (sourceLength : source.length = rows * 32 * addressTransform.wordSize)
include sourceLength

section

variable (bufferLength : buffer.length = rows * 32 * addressTransform.wordSize)
  (fits : rows * 32 ≤ addressTransform.wordCount)
include bufferLength fits

theorem getElem?_deswizzle :
    ∃ after, deswizzle addressTransform source buffer = some after ∧
      after.length = rows * 32 * addressTransform.wordSize ∧
      ∀ word < rows * 32, ∀ offset < addressTransform.wordSize,
        after[word * addressTransform.wordSize + offset]? =
          source[addressTransform.physicalWord word * addressTransform.wordSize + offset]? := by
  rw [deswizzle_eq valid sourceLength, map_congr_left fun word mem => by
    rw [mod_wordCount fits word mem]]
  obtain ⟨after, copied⟩ := exists_copyElements (fits_map
    (fun word mem => addressTransform.physicalWord_lt (mem_range.mp mem))
    (fun word mem => mem_range.mp mem) sourceLength bufferLength)
  have holds := copyElements_holds copied
  refine ⟨after, copied, holds.1.trans bufferLength, fun word less offset below => ?_⟩
  refine holds.copied ?_ (mem_map_of_mem (mem_range.mpr less)) below
  rw [map_map, show Prod.fst ∘ (fun word => (word, addressTransform.physicalWord word)) = id
    from rfl, map_id]
  exact nodup_range

theorem getElem?_swizzle :
    ∃ after, swizzle addressTransform source buffer = some after ∧
      after.length = rows * 32 * addressTransform.wordSize ∧
      ∀ word < rows * 32, ∀ offset < addressTransform.wordSize,
        after[addressTransform.physicalWord word * addressTransform.wordSize + offset]? =
          source[word * addressTransform.wordSize + offset]? := by
  rw [swizzle_eq valid sourceLength, map_congr_left fun word mem => by
    rw [mod_wordCount fits word mem]]
  obtain ⟨after, copied⟩ := exists_copyElements (fits_map (fun word mem => mem_range.mp mem)
    (fun word mem => addressTransform.physicalWord_lt (mem_range.mp mem))
    sourceLength bufferLength)
  have holds := copyElements_holds copied
  refine ⟨after, copied, holds.1.trans bufferLength, fun word less offset below => ?_⟩
  refine holds.copied ?_ (mem_map_of_mem (mem_range.mpr less)) below
  rw [map_map]
  exact nodup_range.map_on fun one _ other _ same => addressTransform.physicalWord_injective same

end

theorem getElem?_deswizzle_behind (res : deswizzle addressTransform source buffer = some after)
    {place : Nat} (behind : 2 ^ 32 ≤ place) : after[place]? = buffer[place]? := by
  have pos := addressTransform.wordSize_pos
  rw [deswizzle_eq valid sourceLength] at res
  have split := div_add_mod place addressTransform.wordSize
  rw [mul_comm] at split
  have isBehind : addressTransform.wordCount ≤ place / addressTransform.wordSize := by
    rw [← wordCount_mul valid] at behind
    exact (le_div_iff_mul_le pos).mpr behind
  rw [← split]
  rcases (copyElements_holds res).2 (place / addressTransform.wordSize)
    (place % addressTransform.wordSize) (Nat.mod_lt _ pos) with ⟨first, isCopy, -⟩ | ⟨-, equal⟩
  · obtain ⟨word, -, isPair⟩ := mem_map.mp isCopy
    have less : word % addressTransform.wordCount < addressTransform.wordCount :=
      Nat.mod_lt _ (Nat.two_pow_pos _)
    rw [(Prod.mk.inj isPair).1] at less
    exact absurd isBehind (Nat.not_le_of_lt less)
  · exact equal

end

end

/-- Where the rotated row has a byte. -/
def physicalByte (addressTransform : AddressTransform) (place : Nat) : Nat :=
  place / rowSize addressTransform * rowSize addressTransform +
    (place % rowSize addressTransform + stagger addressTransform
      (place / rowSize addressTransform)) % rowSize addressTransform

theorem physicalByte_row (row : Nat) {position : Nat}
    (inRow : position < rowSize addressTransform) :
    physicalByte addressTransform (row * rowSize addressTransform + position) =
      row * rowSize addressTransform +
        (position + stagger addressTransform row) % rowSize addressTransform := by
  have rowPositive : 0 < rowSize addressTransform := Nat.two_pow_pos _
  rw [physicalByte, Nat.mul_comm row, Nat.mul_add_div rowPositive, Nat.mul_add_mod,
    Nat.div_eq_of_lt inRow, Nat.mod_eq_of_lt inRow, Nat.add_zero, Nat.mul_comm row]

theorem physicalByte_word (valid : addressTransform.Valid) (word : Nat) {offset : Nat}
    (below : offset < addressTransform.wordSize) :
    physicalByte addressTransform (word * addressTransform.wordSize + offset) =
      addressTransform.physicalWord word * addressTransform.wordSize + offset := by
  rw [physicalByte, rowSize_eq, mul_add_div_mul below, mul_add_mod_mul below, stagger_eq valid,
    add_right_comm, ← add_mul, mul_add_mod_mul below, ← add_assoc, ← mul_assoc,
    ← add_mul]
  rfl

variable {rows : Nat} {source buffer : List UInt8}

section

variable (valid : addressTransform.Valid)
  (sourceLength : source.length = rows * rowSize addressTransform)
  (bufferLength : buffer.length = rows * rowSize addressTransform)
include valid sourceLength bufferLength

theorem deswizzle_reads (fits : rows * rowSize addressTransform ≤ 2 ^ 32) :
    ∃ after, deswizzle addressTransform source buffer = some after ∧
      after.length = rows * rowSize addressTransform ∧
      ∀ place < rows * rowSize addressTransform,
        after[place]? = source[physicalByte addressTransform place]? := by
  have pos := addressTransform.wordSize_pos
  rw [rowSize_eq, ← mul_assoc] at *
  rw [← wordCount_mul valid] at fits
  obtain ⟨after, res, length, reads⟩ := getElem?_deswizzle valid sourceLength bufferLength
    (le_of_mul_le_mul_right fits pos)
  refine ⟨after, res, length, fun place less => ?_⟩
  have split := div_add_mod place addressTransform.wordSize
  have below := Nat.mod_lt place pos
  rw [mul_comm] at split
  rw [← split, physicalByte_word valid _ below]
  exact reads _ ((div_lt_iff_lt_mul pos).mpr less) _ below

theorem deswizzle_swizzle {swizzled target : List UInt8}
    (targetLength : target.length = rows * rowSize addressTransform)
    (fits : rows * rowSize addressTransform ≤ 2 ^ 32)
    (res : swizzle addressTransform source buffer = some swizzled) :
    deswizzle addressTransform swizzled target = some source := by
  have pos := addressTransform.wordSize_pos
  rw [rowSize_eq, ← mul_assoc] at *
  rw [← wordCount_mul valid] at fits
  have wordsFit := le_of_mul_le_mul_right fits pos
  obtain ⟨after, isAfter, length, writes⟩ :=
    getElem?_swizzle valid sourceLength bufferLength wordsFit
  rw [isAfter, Option.some.injEq] at res
  subst res
  obtain ⟨final, isFinal, finalLength, reads⟩ :=
    getElem?_deswizzle valid length targetLength wordsFit
  rw [isFinal]
  refine congrArg some (eq_of_elements finalLength sourceLength fun word less offset below => ?_)
  rw [reads word less offset below, writes word less offset below]

end

end AddressTransform

/-! ### Rows of repeated values -/

section

variable {addressTransform : AddressTransform} {value bytes source : List UInt8}
  {count rows size : Nat}

theorem exists_rotated_out {row filled shift : Nat} (someFilled : 0 < filled) (rest : filled < row)
    (moved : 0 < shift) (inRow : shift < row) :
    ∃ position < filled, filled ≤ (position + shift) % row := by
  rcases lt_or_ge row (filled + shift) with beyond | room
  · refine ⟨row - shift - 1, by omega, ?_⟩
    rw [show row - shift - 1 + shift = row - 1 by omega, mod_eq_of_lt (by omega)]
    omega
  · refine ⟨filled - 1, by omega, ?_⟩
    rw [mod_eq_of_lt (by omega)]
    omega

theorem exists_rotated_byte {unit row filled shift offset : Nat} (below : offset < unit)
    (someFilled : 0 < filled * unit) (rest : filled * unit < row * unit)
    (moved : 0 < shift * unit) (inRow : shift * unit < row * unit) :
    ∃ position < filled * unit, position % unit = offset ∧
      filled * unit ≤ (position + shift * unit) % (row * unit) := by
  obtain ⟨position, less, out⟩ := exists_rotated_out (Nat.pos_of_mul_pos_right someFilled)
    (Nat.lt_of_mul_lt_mul_right rest) (Nat.pos_of_mul_pos_right moved)
    (Nat.lt_of_mul_lt_mul_right inRow)
  refine ⟨position * unit + offset, ?_, ?_, ?_⟩
  · calc position * unit + offset < position * unit + unit := Nat.add_lt_add_left below _
      _ = (position + 1) * unit := (Nat.succ_mul _ _).symm
      _ ≤ filled * unit := Nat.mul_le_mul_right _ less
  · rw [Nat.mul_comm, Nat.mul_add_mod, Nat.mod_eq_of_lt below]
  · rw [Nat.add_right_comm, ← Nat.add_mul, mul_add_mod_mul below]
    exact (Nat.mul_le_mul_right _ out).trans (Nat.le_add_right _ _)

/-- What a padded splat is at the place of a byte -/
theorem rotated_iff (valid : addressTransform.Valid)
    (isRepeated : bytes = (List.replicate count value).flatten)
    (divides : value.length ∣ addressTransform.wordSize)
    (isSource : source = bytes ++ List.replicate (size - bytes.length) (bytes.headD 0))
    (isSize : size = rows * rowSize addressTransform)
    (large : bytes.length ≤ size) (small : size < bytes.length + rowSize addressTransform) :
    (∀ place < bytes.length, source[addressTransform.physicalByte place]? = bytes[place]?) ↔
      bytes.length % rowSize addressTransform = 0 ∨
        stagger addressTransform (bytes.length / rowSize addressTransform) = 0 ∨
        ∃ byte, bytes = List.replicate bytes.length byte := by
  have rowPositive : 0 < rowSize addressTransform := Nat.two_pow_pos _
  have dividesRow : value.length ∣ rowSize addressTransform :=
    divides.trans (addressTransform.rowSize_eq ▸ Nat.dvd_mul_left _ _)
  have dividesStagger : ∀ row, value.length ∣ stagger addressTransform row := fun row =>
    divides.trans (AddressTransform.stagger_eq valid row ▸ Nat.dvd_mul_left _ _)
  have bytesLength : bytes.length = count * value.length := by
    rw [isRepeated, List.length_flatten, map_replicate, sum_replicate_nat]
  have inBytes : ∀ place < bytes.length, bytes[place]? = value[place % value.length]? := by
    intro place less
    rw [bytesLength] at less
    rw [isRepeated, getElem?_flatten_replicate less]
  have inSource : ∀ place < bytes.length, source[place]? = bytes[place]? := fun place less => by
    rw [isSource, getElem?_append_left less]
  have lastRow : bytes.length % rowSize addressTransform ≠ 0 →
      (bytes.length / rowSize addressTransform + 1) * rowSize addressTransform = size := by
    intro notWhole
    have split := Nat.div_add_mod bytes.length (rowSize addressTransform)
    have rest := Nat.mod_lt bytes.length rowPositive
    generalize bytes.length / rowSize addressTransform = row at *
    generalize bytes.length % rowSize addressTransform = filled at *
    have enough : row < rows := by
      refine Nat.lt_of_mul_lt_mul_left (a := rowSize addressTransform) ?_
      rw [Nat.mul_comm _ rows, ← isSize]
      omega
    have few : rows < row + 2 := by
      refine Nat.lt_of_mul_lt_mul_left (a := rowSize addressTransform) ?_
      rw [Nat.mul_comm _ rows, ← isSize, Nat.mul_add]
      omega
    rw [isSize, show rows = row + 1 by omega]
  constructor
  · intro same
    by_contra others
    push Not at others
    obtain ⟨notWhole, notZero, notConstant⟩ := others
    refine notConstant (bytes.headD 0) (ext_getElem? fun place => ?_)
    rcases Nat.lt_or_ge place bytes.length with less | behind
    · rw [inBytes place less, getElem?_replicate, if_pos less]
      have valuePositive : 0 < value.length := Nat.pos_of_ne_zero fun isZero => by
        rw [bytesLength, isZero, Nat.mul_zero] at less
        exact absurd less (Nat.not_lt_zero _)
      have split := Nat.div_add_mod bytes.length (rowSize addressTransform)
      have rest := Nat.mod_lt bytes.length rowPositive
      obtain ⟨filled, isFilled⟩ : value.length ∣ bytes.length % rowSize addressTransform :=
        (Nat.dvd_mod_iff dividesRow).mpr (bytesLength ▸ Nat.dvd_mul_left _ _)
      obtain ⟨shift, isShift⟩ := dividesStagger (bytes.length / rowSize addressTransform)
      obtain ⟨width, isWidth⟩ := id dividesRow
      have inRow := stagger_lt valid.bits valid.width (bytes.length / rowSize addressTransform)
      have isEnd := lastRow notWhole
      rw [Nat.succ_mul] at isEnd
      rw [Nat.mul_comm] at isFilled isShift isWidth split
      rw [isFilled] at rest split
      rw [isShift] at inRow
      obtain ⟨position, isPosition, residue, out⟩ := exists_rotated_byte
        (Nat.mod_lt place valuePositive) (isFilled ▸ Nat.pos_of_ne_zero notWhole)
        (rest.trans_eq isWidth) (isShift ▸ Nat.pos_of_ne_zero notZero) (inRow.trans_eq isWidth)
      rw [← isWidth] at out
      -- A byte of the last row that is read from the padding
      have moved := same (bytes.length / rowSize addressTransform * rowSize addressTransform +
        position) (by omega)
      have behind := Nat.mod_lt (position + shift * value.length) rowPositive
      rw [inBytes _ (by omega), AddressTransform.physicalByte_row _ (isPosition.trans rest),
        isShift, isSource, getElem?_append_right (by omega), getElem?_replicate,
        if_pos (by omega), ← Nat.mod_add_mod,
        Nat.mod_eq_zero_of_dvd (dividesRow.mul_left _), Nat.zero_add, residue] at moved
      exact moved.symm
    · rw [getElem?_eq_none behind, getElem?_eq_none (by simpa using behind)]
  · intro condition place less
    have split := Nat.div_add_mod place (rowSize addressTransform)
    have isPosition := Nat.mod_lt place rowPositive
    have rowLe : place / rowSize addressTransform ≤ bytes.length / rowSize addressTransform :=
      Nat.div_le_div_right less.le
    rw [Nat.mul_comm] at split
    generalize place / rowSize addressTransform = row at *
    generalize place % rowSize addressTransform = position at *
    subst split
    rw [AddressTransform.physicalByte_row _ isPosition]
    rcases Nat.lt_or_eq_of_le rowLe with full | rfl
    · -- The row is full, and a rotation by whole values leaves it as it is.
      have inFull : row * rowSize addressTransform + rowSize addressTransform ≤ bytes.length := by
        rw [← Nat.succ_mul]
        exact (Nat.mul_le_mul_right _ full).trans (Nat.div_mul_le_self _ _)
      have rotated := Nat.mod_lt (position + stagger addressTransform row) rowPositive
      rw [inSource _ (by omega), inBytes _ (by omega), inBytes _ less, ← Nat.add_mod_mod,
        Nat.mod_mod_of_dvd _ dividesRow, ← Nat.add_mod_mod position,
        Nat.mod_eq_zero_of_dvd (dividesStagger row), Nat.add_zero, Nat.add_mod_mod]
    · rcases condition with whole | zero | ⟨byte, constant⟩
      · rw [Nat.div_mul_cancel (Nat.dvd_of_mod_eq_zero whole)] at less
        exact absurd less (Nat.le_add_right _ _).not_gt
      · rw [zero, Nat.add_zero, Nat.mod_eq_of_lt isPosition, inSource _ less]
      · have rotated := Nat.mod_lt (position + stagger addressTransform
          (bytes.length / rowSize addressTransform)) rowPositive
        have pos : 0 < bytes.length := Nat.zero_lt_of_lt less
        have isHead : bytes.headD 0 = byte := by
          rw [constant]
          obtain ⟨rest, isRest⟩ := Nat.exists_eq_succ_of_ne_zero pos.ne'
          rw [isRest]
          rfl
        have allSame : source = replicate size byte := by
          rw [isSource, isHead, constant, length_replicate, replicate_append_replicate,
            Nat.add_sub_cancel' large]
        have isEnd := lastRow fun whole => by
          rw [Nat.div_mul_cancel (Nat.dvd_of_mod_eq_zero whole)] at less
          exact Nat.not_lt.mpr (Nat.le_add_right _ _) less
        rw [Nat.succ_mul] at isEnd
        rw [allSame, getElem?_replicate, if_pos (by omega), constant,
          getElem?_replicate, length_replicate, if_pos less]

end

/-! ### The transformed constant -/

variable {archKind : ArchKind} {addressTransform : AddressTransform} {row : Nat}

theorem rowSize_eq_alignment {bits : UInt32}
    (isSet : AddressTransform.setStaggerBits bits archKind = some addressTransform)
    (aligned : getSizeAlignmentForSwizzling archKind = some row) :
    rowSize addressTransform = row := by
  cases archKind with
  | UNKNOWN => cases isSet
  | NPU37XX =>
    obtain rfl := Option.some.inj isSet
    have isRow : 512 = row := Option.some.inj aligned
    rw [← isRow, rowSize, show LOG2_RAM_CUT_DATA_WIDTH.toNat = 4 from rfl]
    decide
  | NPU40XX =>
    obtain rfl := Option.some.inj isSet
    have isRow : 1024 = row := Option.some.inj aligned
    rw [← isRow, rowSize, show (LOG2_RAM_CUT_DATA_WIDTH + 1).toNat = 5 from rfl]
    decide

theorem staggerAddressBits_eq {key : Nat} (word : key < 2 ^ 31)
    (isSet : AddressTransform.setStaggerBits (UInt32.ofNat key) archKind = some addressTransform) :
    addressTransform.staggerAddressBits.toNat = key % 6 := by
  have isBits : addressTransform.staggerAddressBits = UInt32.ofNat key % (MAX_SWIZZLE_KEY + 1) := by
    cases archKind with
    | UNKNOWN => cases isSet
    | NPU37XX => rw [← Option.some.inj isSet]
    | NPU40XX => rw [← Option.some.inj isSet]
  rw [isBits, UInt32.toNat_mod, UInt32.toNat_ofNat', mod_eq_of_lt (word.trans (by decide))]
  rfl

/-- Whole rows are added until the size has a place. -/
theorem alignSizeForSwizzling_rows (pos : 0 < row) (size : Nat) :
    ∃ rows, alignSizeForSwizzling size row = rows * row ∧
      size ≤ alignSizeForSwizzling size row ∧ alignSizeForSwizzling size row < size + row := by
  have split := div_add_mod size row
  have rest := Nat.mod_lt size pos
  unfold alignSizeForSwizzling
  split
  · refine ⟨size / row + 1, ?_, by omega, by omega⟩
    rw [succ_mul, mul_comm]
    omega
  · rename_i whole
    refine ⟨size / row, ?_, le_rfl, Nat.lt_add_of_pos_right pos⟩
    exact (Nat.div_mul_cancel (Nat.dvd_of_mod_eq_zero (not_not.mp whole))).symm

section

variable {attr : SwizzleConstantAttr} {convert : FloatConversion} {memory : Nat → UInt8}
  {input output : Content} {bytes : List UInt8} {row : Nat}

theorem SwizzleConstantAttr.transform_eq_some
    (made : attr.transform convert memory input = some output)
    (copied : input.copyTo convert (List.replicate input.type.totalAllocSize 0) = some bytes)
    (aligned : getSizeAlignmentForSwizzling attr.arch = some row) :
    ∃ addressTransform, attr.swizzleKey < 2 ^ 31 ∧
      AddressTransform.setStaggerBits (UInt32.ofNat attr.swizzleKey) attr.arch =
        some addressTransform ∧
      let newSize := alignSizeForSwizzling input.type.totalAllocSize row
      if input.isSplat then output.data = paddedInput input newSize bytes
      else swizzle addressTransform (paddedInput input newSize bytes)
        ((List.range newSize).map memory) = some output.data := by
  unfold transform at made
  simp only [Option.bind_eq_bind, Option.bind_eq_some_iff, Option.guard_eq_some', copied,
    aligned, Option.some.injEq, exists_eq_left', exists_const] at made
  obtain ⟨word, outputType, -, addressTransform, isSet, made⟩ := made
  refine ⟨addressTransform, word, isSet, ?_⟩
  split at made
  · rename_i splat
    rw [if_pos splat, ← Option.some.inj made]
  · rename_i dense
    obtain ⟨data, isData, same⟩ := Option.bind_eq_some_iff.mp made
    rw [if_neg dense, ← Option.some.inj same]
    exact isData

theorem length_paddedInput {newSize : Nat} (large : bytes.length ≤ newSize) :
    (SwizzleConstantAttr.paddedInput input newSize bytes).length = newSize := by
  rw [SwizzleConstantAttr.paddedInput, length_append, length_replicate, Nat.add_sub_cancel' large]

theorem exists_padding_iff {after : List UInt8} :
    (∃ padding, some after = some (bytes ++ padding)) ↔
      ∀ place < bytes.length, after[place]? = bytes[place]? := by
  constructor
  · rintro ⟨padding, same⟩ place less
    rw [Option.some.inj same, getElem?_append_left less]
  · intro same
    obtain ⟨padding, isPrefix⟩ := prefix_iff_getElem?.mpr fun place less =>
      (same place less).trans (getElem?_eq_getElem less)
    exact ⟨padding, congrArg some isPrefix.symm⟩

theorem rows_fit (valid : addressTransform.Valid) {rows size : Nat}
    (small : rows * rowSize addressTransform < size + rowSize addressTransform)
    (fits : size ≤ 2 ^ 32) : rows * rowSize addressTransform ≤ 2 ^ 32 := by
  obtain ⟨all, isAll⟩ : rowSize addressTransform ∣ 2 ^ 32 :=
    pow_dvd_pow 2 (by rcases valid.width with four | five <;> omega)
  have less : rows < all + 1 := by
    refine Nat.lt_of_mul_lt_mul_left (a := rowSize addressTransform) ?_
    rw [mul_comm, mul_succ, ← isAll]
    exact small.trans_le (Nat.add_le_add_right fits _)
  rw [isAll, mul_comm]
  exact mul_le_mul_left _ (le_of_lt_succ less)

theorem stagger_eq_zero {number : Nat} :
    stagger addressTransform number = 0 ↔
      number % 2 ^ addressTransform.staggerAddressBits.toNat = 0 := by
  rw [stagger, Nat.mul_eq_zero]
  exact or_iff_left (Nat.two_pow_pos _).ne'

/-- The padding of a splat is its first byte and not its value, and the words of the last row are
read from there. Behind the last address of 32 bits nothing is read at all. -/
theorem deswizzle_transform_iff (sized : convert.Sized)
    (made : attr.transform convert memory input = some output)
    (copied : input.copyTo convert (List.replicate input.type.totalAllocSize 0) = some bytes)
    (aligned : getSizeAlignmentForSwizzling attr.arch = some row) :
    (∀ target : List UInt8, target.length = output.data.length → ∃ padding,
      deswizzleBuffer (UInt32.ofNat attr.swizzleKey) attr.arch output.data target =
        some (bytes ++ padding)) ↔
      bytes.length ≤ 2 ^ 32 ∧ (input.isSplat = true → bytes.length % row = 0 ∨
        bytes.length / row % 2 ^ (attr.swizzleKey % 6) = 0 ∨
        ∃ byte, bytes = List.replicate bytes.length byte) := by
  obtain ⟨addressTransform, word, isSet, isData⟩ :=
    SwizzleConstantAttr.transform_eq_some made copied aligned
  have valid := setStaggerBits_valid isSet
  have isRow := rowSize_eq_alignment isSet aligned
  have rowPositive : 0 < rowSize addressTransform := Nat.two_pow_pos _
  have length := length_copyTo sized copied
  rw [length_replicate] at length
  rw [← length, ← isRow] at isData
  obtain ⟨rows, newRows, large, small⟩ := alignSizeForSwizzling_rows rowPositive bytes.length
  generalize alignSizeForSwizzling bytes.length (rowSize addressTransform) = newSize at *
  have paddedLength := @length_paddedInput input bytes _ large
  have inWords : newSize = rows * 32 * addressTransform.wordSize := by
    rw [newRows, AddressTransform.rowSize_eq, Nat.mul_assoc]
  have dataLength : output.data.length = newSize := by
    dsimp only at isData
    split at isData
    · rw [isData, paddedLength]
    · rw [AddressTransform.swizzle_eq valid (paddedLength.trans inWords)] at isData
      rw [(copyElements_holds isData).1, length_map, length_range]
  have isDeswizzle : ∀ target : List UInt8,
      deswizzleBuffer (UInt32.ofNat attr.swizzleKey) attr.arch output.data target =
        deswizzle addressTransform output.data target := fun target => by
    rw [deswizzleBuffer, isSet, Option.bind_some]
  simp only [isDeswizzle, dataLength]
  rw [← isRow, ← staggerAddressBits_eq word isSet, ← stagger_eq_zero]
  rcases Nat.lt_or_ge (2 ^ 32) bytes.length with beyond | fits
  · refine iff_of_false (fun same => ?_) fun both => absurd both.1 (Nat.not_le_of_lt beyond)
    obtain ⟨byte, isByte⟩ : ∃ byte, bytes[2 ^ 32]? = some byte := ⟨_, getElem?_eq_getElem beyond⟩
    obtain ⟨padding, res⟩ := same (replicate newSize (byte + 1)) length_replicate
    have behind := AddressTransform.getElem?_deswizzle_behind valid (dataLength.trans inWords)
      res le_rfl
    rw [getElem?_append_left beyond, isByte, getElem?_replicate,
      if_pos (beyond.trans_le large), Option.some.injEq] at behind
    have sameNumber : byte.toNat = (byte.toNat + 1) % 2 ^ 8 := by
      rw [← UInt8.toNat_one, ← UInt8.toNat_add, ← behind]
    omega
  · have rowsFit := rows_fit valid (newRows ▸ small) fits
    rw [and_iff_right fits]
    split at isData
    · rename_i splat
      obtain ⟨count, value, isRepeated, widths⟩ := splat_copyTo sized splat
        (length_replicate) copied
      have divides : value.length ∣ addressTransform.wordSize := by
        have sixteen : 16 ∣ addressTransform.wordSize :=
          Nat.pow_dvd_pow 2 (?_ : 4 ≤ addressTransform.log2RamCutDataWidth.toNat)
        · refine Nat.dvd_trans ?_ sixteen
          rcases widths with width | width | width | width <;> rw [width] <;> decide
        · rcases valid.width with four | five <;> omega
      have isSource : output.data =
          bytes ++ replicate (newSize - bytes.length) (bytes.headD 0) := by
        rw [isData, SwizzleConstantAttr.paddedInput, if_pos splat]
      rw [forall_prop_of_true splat,
        ← rotated_iff valid isRepeated divides isSource newRows large small]
      have reads : ∀ target : List UInt8, target.length = newSize →
          ((∃ padding, deswizzle addressTransform output.data target = some (bytes ++ padding)) ↔
            ∀ place < bytes.length,
              output.data[addressTransform.physicalByte place]? = bytes[place]?) := by
        intro target targetLength
        obtain ⟨after, res, -, moved⟩ := AddressTransform.deswizzle_reads valid
          (dataLength.trans newRows) (targetLength.trans newRows) rowsFit
        rw [res, exists_padding_iff]
        refine forall₂_congr fun place less => ?_
        rw [moved place (newRows ▸ less.trans_le large)]
      constructor
      · exact fun same => (reads _ length_replicate).mp
          (same (replicate newSize 0) length_replicate)
      · exact fun same target targetLength => (reads target targetLength).mpr same
    · rename_i dense
      refine iff_of_true (fun target targetLength => ?_) fun splat => absurd splat dense
      refine ⟨_, AddressTransform.deswizzle_swizzle valid (paddedLength.trans newRows)
        ?_ (targetLength.trans newRows) rowsFit isData⟩
      rw [length_map, length_range, newRows]

end

deriving instance DecidableEq for Content

/-- Numbers of the right type stay as they are. -/
def keepNumber : FloatConversion := fun inT outT value =>
  if inT = outT ∧ value.length = outT.sizeof then some value else none

/-- The number one as often as it takes one row and a word of the next one -/
def ones : Content where
  type := ⟨[1, 1, 1, 264], .NCHW, .scalar (.float .f16), by decide⟩
  storageElemType := .scalar (.float .f16)
  isSplat := true
  data := [0x00, 0x3C]

def swizzleFive : SwizzleConstantAttr := ⟨5, .NPU37XX⟩

def onesBytes : List UInt8 := (List.replicate 264 [0x00, 0x3C]).flatten

/-- The first byte of the number is zero, and so is the padding. -/
def swizzledOnes : Content where
  type := ⟨[512, 1, 1, 1], .NCHW, .scalar (.float .f16), by decide⟩
  storageElemType := .scalar (.float .f16)
  isSplat := false
  data := onesBytes ++ List.replicate 496 0

theorem transform_ones :
    swizzleFive.transform keepNumber (fun _ => 0) ones = some swizzledOnes := by
  decide +kernel

theorem copyTo_ones :
    ones.copyTo keepNumber (List.replicate ones.type.totalAllocSize 0) = some onesBytes := by
  decide +kernel

theorem ones_not_deswizzled :
    swizzleFive.transform keepNumber (fun _ => 0) ones = some swizzledOnes ∧
      ones.copyTo keepNumber (List.replicate ones.type.totalAllocSize 0) = some onesBytes ∧
      ¬ ∃ padding, deswizzleBuffer (UInt32.ofNat swizzleFive.swizzleKey) swizzleFive.arch
        swizzledOnes.data (List.replicate 1024 0) = some (onesBytes ++ padding) := by
  refine ⟨transform_ones, copyTo_ones, fun ⟨padding, same⟩ => ?_⟩
  have isSet : AddressTransform.setStaggerBits (UInt32.ofNat swizzleFive.swizzleKey)
      swizzleFive.arch = some ⟨5, 31, 4, 4, 511⟩ := rfl
  have sourceLength : swizzledOnes.data.length = 2 * rowSize ⟨5, 31, 4, 4, 511⟩ := by decide +kernel
  obtain ⟨after, res, -, reads⟩ := AddressTransform.deswizzle_reads
    (setStaggerBits_valid isSet) sourceLength
    (show (replicate 1024 (0 : UInt8)).length = _ from length_replicate) (by decide)
  rw [deswizzleBuffer, isSet, Option.bind_some, res, Option.some.injEq] at same
  -- The second byte of the second row
  have moved := reads 513 (by decide)
  rw [same, getElem?_append_left (by decide +kernel)] at moved
  exact absurd moved (by decide +kernel)

theorem ones_deswizzled_iff :
    (∀ target : List UInt8, target.length = swizzledOnes.data.length →
      ∃ padding, deswizzleBuffer (UInt32.ofNat swizzleFive.swizzleKey) swizzleFive.arch
        swizzledOnes.data target = some (onesBytes ++ padding)) ↔
      onesBytes.length ≤ 2 ^ 32 ∧ (ones.isSplat = true → onesBytes.length % 512 = 0 ∨
        onesBytes.length / 512 % 2 ^ (swizzleFive.swizzleKey % 6) = 0 ∨
        ∃ byte, onesBytes = List.replicate onesBytes.length byte) := by
  refine deswizzle_transform_iff (fun inT outT value res converted => ?_) transform_ones
    copyTo_ones (show getSizeAlignmentForSwizzling swizzleFive.arch = some 512 from rfl)
  unfold keepNumber at converted
  split at converted
  · rename_i kept
    rw [← Option.some.inj converted, kept.2]
  · cases converted

end NpuPlugin.ConstTransformations
