/-
This file models `NCESparsity::getInstructionListTable` and reads its table back as the ranges, the
shifts and the biases of a piecewise-linear function.
-/

import Mathlib.Data.List.Basic

namespace NpuPlugin.NCESparsity

open List Nat

/-! ### The table -/

/-- `resize` of a vector, with the value for new elements. -/
def resize (values : List (BitVec 32)) (size : Nat) (fill : BitVec 32) : List (BitVec 32) :=
  values.take size ++ replicate (size - values.length) fill

def ALU_HALT_OPCODE : BitVec 32 := 6
def INSTRUCTION_END : BitVec 32 := 0

/-- `generateTableElement` with its address fields; `ALU_LOAD` is 2. -/
def generateTableElement (input first2Bits first3Bits : BitVec 32) : BitVec 32 :=
  (input <<< 19) ||| (first3Bits <<< 16) ||| (8 <<< 11) ||| (first2Bits <<< 9) ||| (0 <<< 6) ||| 2

/-- The table of `getInstructionListTable` for lists that have all elements. -/
def fillTable (range shift bias : List (BitVec 32)) : List (BitVec 32) :=
  let fullSize := range.length + shift.length + bias.length
  let noopCount := fullSize >>> 4
  let size := (fullSize + noopCount + 15) / 16 * 16
  let templateTable := (List.range fullSize).foldl (fun table j =>
    let input :=
      if j < range.length then range.getD j 0
      else if j < range.length + shift.length then shift.getD (j - range.length) 0
      else bias.getD (j - range.length - shift.length) 0
    table.set j (generateTableElement input (.ofNat 32 (j &&& 3)) (.ofNat 32 (j >>> 2))))
    (replicate (size - noopCount - 1) ALU_HALT_OPCODE)
  let templateTable := templateTable.insertIdx fullSize INSTRUCTION_END
  if 0 < noopCount then templateTable.insertIdx 15 ALU_HALT_OPCODE else templateTable

def getInstructionListTable (rangeAttr shiftAttr biasAttr : List (BitVec 32)) :
    Except String (List (BitVec 32)) :=
  if rangeAttr.length = shiftAttr.length + 1 ∧ biasAttr.length = shiftAttr.length then
    let range := resize rangeAttr 9 (rangeAttr.getLastD 0)
    let shift := resize shiftAttr 8 (shiftAttr.getLastD 0)
    let bias := resize biasAttr 8 (shift.getLastD 0)
    .ok (fillTable range shift bias)
  else .error (s!"One instruction list table is incomplet: range={rangeAttr.length}" ++
    s!" shift={shiftAttr.length} bias={biasAttr.length}")

/-! ### Reading it back -/

inductive Instruction
  | load (addr : Nat) (value : BitVec 32)
  | done
  | unknown
deriving DecidableEq

/-- The instruction of a word; a halt word has none. -/
def decode (word : BitVec 32) : Option Instruction :=
  if word = ALU_HALT_OPCODE then none
  else if word = INSTRUCTION_END then some .done
  else if word.extractLsb' 0 9 = 2 ∧ word.extractLsb' 11 5 = 8 then
    some (.load ((word.extractLsb' 16 3).toNat * 4 + (word.extractLsb' 9 2).toNat)
      ((word.extractLsb' 19 13).signExtend 32))
  else some .unknown

/-- The instructions of a table. -/
def readBack (table : List (BitVec 32)) : List Instruction := table.filterMap decode

/-! ### What the table describes -/

/-- The value fits the 13 bits of a load. -/
def Fits (value : BitVec 32) : Prop := -4096 ≤ value.toInt ∧ value.toInt < 4096

/-- The attributes of a piecewise-linear function: segment `i` begins at `range[i]`. -/
structure PiecewiseLinear where
  range : List (BitVec 32)
  shift : List (BitVec 32)
  bias : List (BitVec 32)
  range_length : range.length = shift.length + 1
  bias_length : bias.length = shift.length
  shift_pos : 1 ≤ shift.length
  shift_le : shift.length ≤ 8
  fits : ∀ value ∈ range ++ shift ++ bias, Fits value

/-- The shift and the bias of an input: those of the first segment that ends above it, or of the
last segment. -/
def coefficients (range shift bias : List (BitVec 32)) (input : Int) : BitVec 32 × BitVec 32 :=
  let segment := (range.tail.findIdx? (input < ·.toInt)).getD (shift.length - 1)
  (shift.getD segment 0, bias.getD segment 0)

/-- The last value is repeated. -/
def repeatLast (size : Nat) (values : List (BitVec 32)) : List (BitVec 32) :=
  values ++ replicate (size - values.length) (values.getLastD 0)

namespace PiecewiseLinear

variable (attr : PiecewiseLinear)

/-- The loads of the function with all segments, one for each address, in order. -/
def loads : List Instruction :=
  ((repeatLast 9 attr.range ++ repeatLast 8 attr.shift ++ repeatLast 8 attr.bias).zipIdx).map
    fun (value, addr) => .load addr value

/-- The table decodes to these loads, which describe the same function. -/
def Decodable : Prop :=
  ∃ table, getInstructionListTable attr.range attr.shift attr.bias = .ok table ∧
    table.length = 32 ∧ readBack table = attr.loads ++ [.done] ∧
    ∀ input, coefficients (repeatLast 9 attr.range) (repeatLast 8 attr.shift)
      (repeatLast 8 attr.bias) input = coefficients attr.range attr.shift attr.bias input

end PiecewiseLinear

/-! ### Words -/

variable {value : BitVec 32}

theorem signExtend_setWidth (fits : Fits value) : (value.setWidth 13).signExtend 32 = value := by
  obtain ⟨lower, upper⟩ := fits
  refine BitVec.eq_of_toInt_eq ?_
  rw [BitVec.toInt_signExtend_of_le (by decide), BitVec.toInt_setWidth, Int.bmod_def]
  rw [BitVec.toInt_eq_toNat_cond] at lower upper ⊢
  omega

/-- The fields of a load but for its value. -/
def lowBits (addr : Nat) : BitVec 32 :=
  generateTableElement 0 (.ofNat 32 (addr &&& 3)) (.ofNat 32 (addr >>> 2))

theorem generateTableElement_eq (value : BitVec 32) (addr : Nat) :
    generateTableElement value (.ofNat 32 (addr &&& 3)) (.ofNat 32 (addr >>> 2)) =
      (value <<< 19) ||| lowBits addr := by
  simp [lowBits, generateTableElement, BitVec.or_assoc]

theorem lowBits_fields : ∀ addr < 25, (lowBits addr).extractLsb' 0 9 = 2 ∧
    (lowBits addr).extractLsb' 11 5 = 8 ∧
    ((lowBits addr).extractLsb' 16 3).toNat * 4 + ((lowBits addr).extractLsb' 9 2).toNat = addr ∧
    (lowBits addr).extractLsb' 19 13 = 0 := by
  decide

theorem extractLsb'_shifted (value low : BitVec 32) {start len : Nat} (below : start + len ≤ 19) :
    ((value <<< 19) ||| low).extractLsb' start len = low.extractLsb' start len := by
  ext idx bound
  simp [show start + idx < 19 by omega]

theorem decode_generateTableElement (fits : Fits value) {addr : Nat} (small : addr < 25) :
    decode (generateTableElement value (.ofNat 32 (addr &&& 3)) (.ofNat 32 (addr >>> 2))) =
      some (.load addr value) := by
  obtain ⟨opcode, flex, address, high⟩ := lowBits_fields addr small
  rw [generateTableElement_eq]
  have kept : ((value <<< 19) ||| lowBits addr).extractLsb' 11 5 = 8 :=
    (extractLsb'_shifted _ _ (by decide)).trans flex
  have field : ((value <<< 19) ||| lowBits addr).extractLsb' 19 13 = value.setWidth 13 := by
    rw [BitVec.extractLsb'_or, high]
    ext idx bound
    simp [show ¬ 19 + idx < 19 by omega, show 19 + idx < 32 by omega, ← BitVec.getLsbD_eq_getElem]
  have other : ∀ word : BitVec 32, word.extractLsb' 11 5 ≠ 8 →
      (value <<< 19) ||| lowBits addr ≠ word := fun word none equal => none (equal ▸ kept)
  unfold decode
  rw [if_neg (other _ (by decide)), if_neg (other _ (by decide)),
    if_pos ⟨(extractLsb'_shifted _ _ (by decide)).trans opcode, kept⟩,
    extractLsb'_shifted _ _ (by decide), extractLsb'_shifted _ _ (by decide), address, field,
    signExtend_setWidth fits]

/-! ### The table that is built -/

theorem foldl_set {Value : Type} (value : Nat → Value) (count : Nat) (table : List Value)
    (room : count ≤ table.length) :
    (List.range count).foldl (fun table idx => table.set idx (value idx)) table =
      (List.range count).map value ++ table.drop count := by
  induction count with
  | zero => rfl
  | succ count ih =>
    rw [range_succ, foldl_append, ih (by omega), foldl_cons, foldl_nil, map_append, map_singleton,
      append_assoc, set_append_right _ _ (by simp), length_map, length_range, Nat.sub_self,
      drop_eq_getElem_cons (show count < table.length by omega)]
    rfl

theorem insertIdx_append_length {Value : Type} (first second : List Value) (value : Value) :
    (first ++ second).insertIdx first.length value = first ++ value :: second := by
  induction first with
  | nil => rfl
  | cons _ _ ih => simpa using ih

theorem readBack_insertIdx (table : List (BitVec 32)) (idx : Nat) :
    readBack (table.insertIdx idx ALU_HALT_OPCODE) = readBack table := by
  induction table generalizing idx with
  | nil => cases idx <;> rfl
  | cons word rest ih =>
    cases idx with
    | zero => rfl
    | succ idx =>
      have later := ih idx
      unfold readBack at later ⊢
      rw [insertIdx_succ_cons, filterMap_cons, filterMap_cons, later]

variable {values : List (BitVec 32)}

theorem resize_eq {size : Nat} (few : values.length ≤ size) (fill : BitVec 32) :
    resize values size fill = values ++ replicate (size - values.length) fill :=
  congrArg (· ++ _) (take_of_length_le few)

theorem readBack_loads (few : values.length ≤ 25) (fits : ∀ value ∈ values, Fits value) :
    readBack ((List.range values.length).map fun addr => generateTableElement (values.getD addr 0)
      (.ofNat 32 (addr &&& 3)) (.ofNat 32 (addr >>> 2))) =
      values.zipIdx.map fun (value, addr) => .load addr value := by
  have entries : values.zipIdx = (List.range values.length).map fun addr =>
      (values.getD addr 0, addr) := by
    refine ext_getElem (by simp) fun idx inside _ => ?_
    rw [length_zipIdx] at inside
    simp [inside]
  unfold readBack
  rw [filterMap_map, entries, map_map, ← filterMap_eq_map]
  refine filterMap_congr fun addr mem => ?_
  have small : addr < values.length := mem_range.mp mem
  rw [Function.comp_apply, decode_generateTableElement (fits _ ?_) (by omega)]
  · rfl
  · rw [getD_eq_getElem?_getD, getElem?_eq_getElem small]
    exact getElem_mem small

theorem getLastD_mem (pos : 0 < values.length) : values.getLastD 0 ∈ values := by
  rw [getLastD_eq_getLast?, getLast?_eq_some_getLast (ne_nil_of_length_pos pos)]
  exact getLast_mem _

theorem getD_repeatLast {size : Nat} {idx : Nat} (inside : idx < size) :
    (repeatLast size values).getD idx 0 = values.getD (min idx (values.length - 1)) 0 := by
  unfold repeatLast
  rw [getD_eq_getElem?_getD, getD_eq_getElem?_getD]
  by_cases given : idx < values.length
  · rw [getElem?_append_left given, show min idx (values.length - 1) = idx by omega]
  · rw [getElem?_append_right (by omega), getElem?_replicate_of_lt (by omega), getLastD_eq_getLast?,
      getLast?_eq_getElem?, show min idx (values.length - 1) = values.length - 1 by omega]
    rfl

/-- Repeating the last values keeps the function. -/
theorem coefficients_repeatLast (attr : PiecewiseLinear) (input : Int) :
    coefficients (repeatLast 9 attr.range) (repeatLast 8 attr.shift) (repeatLast 8 attr.bias)
      input = coefficients attr.range attr.shift attr.bias input := by
  have same := attr.bias_length
  have few := attr.shift_le
  have pos := attr.shift_pos
  have lengths := attr.range_length
  have size : (repeatLast 8 attr.shift).length = 8 := by
    simp only [repeatLast, length_append, length_replicate]
    omega
  cases ranges : attr.range with
  | nil =>
    rw [ranges] at lengths
    cases lengths
  | cons first ends =>
    rw [ranges, length_cons, Nat.add_right_cancel_iff] at lengths
    have tail : (repeatLast 9 (first :: ends)).tail =
        ends ++ replicate (8 - ends.length) ((first :: ends).getLastD 0) := by
      rw [repeatLast, length_cons, show 9 - (ends.length + 1) = 8 - ends.length by omega]
      rfl
    unfold coefficients
    simp only [tail, size, findIdx?_append, tail_cons]
    cases found : ends.findIdx? (input < ·.toInt) with
    | some segment =>
      have inside := (findIdx?_eq_some_iff_getElem.mp found).1
      rw [Option.some_or, Option.getD_some]
      rw [getD_repeatLast (by omega), getD_repeatLast (by omega), same,
        show min segment (attr.shift.length - 1) = segment by omega]
      rfl
    | none =>
      have last : ¬ input < ((first :: ends).getLastD 0).toInt := by
        cases ends with
        | nil =>
          rw [← lengths] at pos
          cases pos
        | cons second rest =>
          have none := findIdx?_eq_none_iff.mp found _ (getLastD_mem (succ_pos _))
          exact of_decide_eq_false none
      have beyond : (replicate (8 - ends.length) ((first :: ends).getLastD 0)).findIdx?
          (input < ·.toInt) = none := by
        rw [findIdx?_eq_none_iff]
        intro value mem
        rw [eq_of_mem_replicate mem]
        exact decide_eq_false last
      rw [beyond]
      simp only [Option.map_none, Option.or_none, Option.getD_none]
      rw [getD_repeatLast (by omega), getD_repeatLast (by omega), same,
        show min (8 - 1) (attr.shift.length - 1) = attr.shift.length - 1 by omega]

theorem fillTable_spec {range shift bias : List (BitVec 32)} (ranges : range.length = 9)
    (shifts : shift.length = 8) (biases : bias.length = 8)
    (fits : ∀ value ∈ range ++ shift ++ bias, Fits value) :
    (fillTable range shift bias).length = 32 ∧ readBack (fillTable range shift bias) =
      ((range ++ shift ++ bias).zipIdx.map fun (value, addr) => .load addr value) ++ [.done] := by
  have full : (range ++ shift ++ bias).length = 25 := by simp [ranges, shifts, biases]
  have words := readBack_loads (Nat.le_of_eq full) fits
  have table : fillTable range shift bias =
      (((List.range 25).map (fun addr => generateTableElement ((range ++ shift ++ bias).getD addr 0)
        (.ofNat 32 (addr &&& 3)) (.ofNat 32 (addr >>> 2))) ++
          INSTRUCTION_END :: replicate 5 ALU_HALT_OPCODE).insertIdx 15 ALU_HALT_OPCODE) := by
    have inputs : ∀ j, (if j < 9 then range.getD j 0 else if j < 17 then shift.getD (j - 9) 0
        else bias.getD (j - 9 - 8) 0) = (range ++ shift ++ bias).getD j 0 := by
      intro j
      simp only [getD_eq_getElem?_getD, append_assoc, getElem?_append, ranges, shifts]
      split
      · rfl
      · split <;> split <;> first | rfl | omega
    unfold fillTable
    simp only [ranges, shifts, biases, reduceAdd, reduceShiftRight, reduceDiv,
      reduceMul, reduceSub, reduceLT, if_true, inputs]
    rw [foldl_set _ 25 (replicate 30 ALU_HALT_OPCODE) (by simp), drop_replicate]
    have words := insertIdx_append_length ((List.range 25).map fun addr =>
      generateTableElement ((range ++ shift ++ bias).getD addr 0) (.ofNat 32 (addr &&& 3))
        (.ofNat 32 (addr >>> 2))) (replicate 5 ALU_HALT_OPCODE) INSTRUCTION_END
    rw [length_map, length_range] at words
    rw [words]
  rw [full] at words
  rw [table, readBack_insertIdx]
  refine ⟨by simp [length_insertIdx], ?_⟩
  rw [← words]
  exact filterMap_append

namespace PiecewiseLinear

variable (attr : PiecewiseLinear)

theorem getInstructionListTable_eq :
    ∃ table, getInstructionListTable attr.range attr.shift attr.bias = .ok table ∧
      table.length = 32 ∧
      readBack table = ((repeatLast 9 attr.range ++ repeatLast 8 attr.shift ++
        resize attr.bias 8 (attr.shift.getLastD 0)).zipIdx.map fun (value, addr) =>
          .load addr value) ++ [.done] := by
  have lengths := attr.range_length
  have same := attr.bias_length
  have few := attr.shift_le
  have pos := attr.shift_pos
  have ranges : resize attr.range 9 (attr.range.getLastD 0) = repeatLast 9 attr.range :=
    resize_eq (by omega) _
  have shifts : resize attr.shift 8 (attr.shift.getLastD 0) = repeatLast 8 attr.shift :=
    resize_eq few _
  have last : (repeatLast 8 attr.shift).getLastD 0 = attr.shift.getLastD 0 := by
    unfold repeatLast
    cases more : 8 - attr.shift.length with
    | zero => rw [replicate_zero, append_nil]
    | succ count => simp [replicate_succ']
  refine ⟨fillTable (repeatLast 9 attr.range) (repeatLast 8 attr.shift)
    (resize attr.bias 8 (attr.shift.getLastD 0)), ?_, fillTable_spec ?_ ?_ ?_ ?_⟩
  · simp only [getInstructionListTable, if_pos (And.intro lengths same), ranges, shifts, last]
  · simp only [repeatLast, length_append, length_replicate]
    omega
  · simp only [repeatLast, length_append, length_replicate]
    omega
  · simp only [resize, length_append, length_take, length_replicate]
    omega
  · intro value mem
    rw [resize_eq (by omega), mem_append, mem_append] at mem
    have given : ∀ {values : List (BitVec 32)} {count : Nat} {fill : BitVec 32},
        value ∈ values ++ replicate count fill → value ∈ values ∨ value = fill :=
      fun mem => (mem_append.mp mem).imp_right eq_of_mem_replicate
    refine attr.fits value ?_
    rw [mem_append, mem_append]
    rcases mem with (inRange | inShift) | inBias
    · rcases given inRange with kept | filled
      · exact .inl (.inl kept)
      · exact .inl (.inl (filled ▸ getLastD_mem (by omega)))
    · rcases given inShift with kept | filled
      · exact .inl (.inr kept)
      · exact .inl (.inr (filled ▸ getLastD_mem pos))
    · rcases given inBias with kept | filled
      · exact .inr kept
      · exact .inl (.inr (filled ▸ getLastD_mem pos))

/-- The table describes the function when all segments are given or the last shift happens to be
the last bias. -/
theorem decodable_iff :
    attr.Decodable ↔ attr.shift.length = 8 ∨ attr.shift.getLastD 0 = attr.bias.getLastD 0 := by
  obtain ⟨table, built, length, read⟩ := attr.getInstructionListTable_eq
  have same := attr.bias_length
  have few := attr.shift_le
  rw [resize_eq (by omega), same] at read
  have biases : repeatLast 8 attr.bias =
      attr.bias ++ replicate (8 - attr.shift.length) (attr.bias.getLastD 0) := by
    rw [repeatLast, same]
  unfold Decodable loads
  rw [biases]
  constructor
  · rintro ⟨_, other, _, loads, _⟩
    rw [Except.ok.inj (built.symm.trans other)] at read
    have entries := append_cancel_right (read.symm.trans loads)
    have values := congrArg (List.map Prod.fst) (map_injective_iff.mpr
      (fun first second equal => by
        obtain ⟨addr, value⟩ := Instruction.load.inj equal
        exact Prod.ext value addr) entries)
    rw [zipIdx_map_fst, zipIdx_map_fst] at values
    have filled := append_cancel_left (append_cancel_left values)
    rcases Nat.eq_or_lt_of_le few with all | some
    · exact .inl all
    · exact .inr ((replicate_right_inj (by omega)).mp filled)
  · intro covered
    refine ⟨table, built, length, ?_, fun input => ?_⟩
    · rw [read]
      rcases covered with all | last
      · rw [all, Nat.sub_self, replicate_zero, replicate_zero]
      · rw [last]
    · rw [← biases]
      exact coefficients_repeatLast attr input

theorem fits_small : ∀ value ∈ [(0 : BitVec 32), 1, 2, 3], Fits value := by simp [Fits]

/-- One segment, whose shift takes the place of its bias in the other seven. -/
def oneSegment : PiecewiseLinear where
  range := [0, 1]
  shift := [2]
  bias := [3]
  range_length := rfl
  bias_length := rfl
  shift_pos := Nat.le_refl 1
  shift_le := Nat.succ_le_succ (Nat.zero_le 7)
  fits := fits_small

theorem oneSegment_not_decodable : ¬ oneSegment.Decodable := by
  rintro ⟨table, built, -, read, -⟩
  cases built
  exact absurd read (by decide)

end PiecewiseLinear

end NpuPlugin.NCESparsity
