/-
This file is about items that are kept in a buffer block by block, where every block begins at a
multiple of an alignment: how such a buffer is filled from its start, where an item is found again,
and how many of the items before it were kept.
-/

import Mathlib.Algebra.BigOperators.Ring.List
import Mathlib.Algebra.Order.Ring.Nat
import NpuPlugin.Library.Copies
import NpuPlugin.Library.Loop

namespace NpuPlugin.AlignedBlocks

open Copies List Nat

variable {Byte Item : Type*} {align size total : Nat} {fill : Byte}

/-! ### Alignment -/

/-- The smallest multiple of the alignment that is not below the value. -/
def alignUp (align value : Nat) : Nat := (value + (align - 1)) / align * align

theorem le_alignUp (pos : 0 < align) (value : Nat) : value ≤ alignUp align value := by
  unfold alignUp
  have split := div_add_mod (value + (align - 1)) align
  have below := mod_lt (value + (align - 1)) pos
  rw [mul_comm] at split
  omega

theorem dvd_alignUp (align value : Nat) : align ∣ alignUp align value := Dvd.intro_left _ rfl

theorem alignUp_of_dvd (pos : 0 < align) {value : Nat} (aligned : align ∣ value) :
    alignUp align value = value := by
  obtain ⟨times, rfl⟩ := aligned
  unfold alignUp
  rw [mul_add_div pos, div_eq_of_lt (sub_lt pos one_pos), add_zero, mul_comm]

theorem alignUp_mono (align : Nat) : Monotone (alignUp align) := fun _ _ less =>
  Nat.mul_le_mul_right _ (Nat.div_le_div_right (Nat.add_le_add_right less _))

theorem alignUp_le (pos : 0 < align) {value bound : Nat} (aligned : align ∣ bound)
    (less : value ≤ bound) : alignUp align value ≤ bound :=
  (alignUp_mono align less).trans_eq (alignUp_of_dvd pos aligned)

/-- A finer alignment before a coarser one changes nothing. -/
theorem alignUp_alignUp {fine coarse : Nat} (finePos : 0 < fine) (coarsePos : 0 < coarse)
    (divides : fine ∣ coarse) (value : Nat) :
    alignUp coarse (alignUp fine value) = alignUp coarse value :=
  le_antisymm
    (alignUp_le coarsePos (dvd_alignUp coarse value)
      (alignUp_le finePos (divides.trans (dvd_alignUp coarse value)) (le_alignUp coarsePos value)))
    (alignUp_mono coarse (le_alignUp finePos value))

/-- Alignment does not depend on the aligned part in front. -/
theorem alignUp_add (pos : 0 < align) {start : Nat} (aligned : align ∣ start) (value : Nat) :
    alignUp align (start + value) = start + alignUp align value := by
  obtain ⟨times, rfl⟩ := aligned
  unfold alignUp
  rw [add_assoc, mul_add_div pos, add_mul, mul_comm times]

/-! ### Blocks -/

variable (align fill) in
def withPadding (block : List Byte) : List Byte :=
  block ++ List.replicate (alignUp align block.length - block.length) fill

variable (align fill) in
/-- All blocks, each one padded to the alignment. -/
def packed (blocks : List (List Byte)) : List Byte := (blocks.map (withPadding align fill)).flatten

/-- Where a block begins. -/
def startOf (align : Nat) (blocks : List (List Byte)) (number : Nat) : Nat :=
  ((blocks.take number).map fun block => alignUp align block.length).sum

theorem length_withPadding (pos : 0 < align) (block : List Byte) :
    (withPadding align fill block).length = alignUp align block.length := by
  rw [withPadding, length_append, length_replicate]
  exact Nat.add_sub_cancel' (le_alignUp pos _)

theorem packed_append (first second : List (List Byte)) :
    packed align fill (first ++ second) = packed align fill first ++ packed align fill second := by
  simp only [packed, map_append, flatten_append]

theorem packed_singleton (block : List Byte) :
    packed align fill [block] = withPadding align fill block := by
  simp [packed]

theorem length_packed (pos : 0 < align) (blocks : List (List Byte)) :
    (packed align fill blocks).length =
      (blocks.map fun block => alignUp align block.length).sum := by
  simp only [packed, length_flatten, map_map, Function.comp_def, length_withPadding pos]

theorem dvd_length_packed (pos : 0 < align) (blocks : List (List Byte)) :
    align ∣ (packed align fill blocks).length := by
  rw [length_packed pos]
  refine dvd_sum fun length mem => ?_
  obtain ⟨block, -, rfl⟩ := mem_map.mp mem
  exact dvd_alignUp align _

variable {number : Nat}

theorem drop_packed (pos : 0 < align) {blocks : List (List Byte)} {block : List Byte}
    (found : blocks[number]? = some block) :
    (packed align fill blocks).drop (startOf align blocks number) =
      withPadding align fill block ++ packed align fill (blocks.drop (number + 1)) := by
  obtain ⟨inside, rfl⟩ := List.getElem?_eq_some_iff.mp found
  have split : blocks = blocks.take number ++ (blocks[number] :: blocks.drop (number + 1)) := by
    rw [← drop_eq_getElem_cons inside, take_append_drop]
  have parts : packed align fill blocks = packed align fill (blocks.take number) ++
      (withPadding align fill blocks[number] ++ packed align fill (blocks.drop (number + 1))) := by
    conv_lhs => rw [split, append_cons, packed_append, packed_append, packed_singleton]
    rw [append_assoc]
  have start : startOf align blocks number = (packed align fill (blocks.take number)).length :=
    (length_packed pos _).symm
  rw [parts, start, drop_left]

theorem startOf_of_length {blocks : List (List Byte)} {length : Nat}
    (same : ∀ block ∈ blocks, block.length = length) (inside : number ≤ blocks.length) :
    startOf align blocks number = number * alignUp align length := by
  have each : ∀ block ∈ blocks.take number, alignUp align block.length = alignUp align length :=
    fun block mem => congrArg (alignUp align) (same block (mem_of_mem_take mem))
  rw [startOf, map_congr_left each, map_const', sum_replicate_nat, length_take, min_eq_left inside]

theorem take_drop_flatten {items : List (List Byte)} (sized : ∀ item ∈ items, item.length = size)
    {item rest : List Byte} (found : items[number]? = some item) :
    ((items.flatten ++ rest).drop (number * size)).take size = item := by
  induction items generalizing number with
  | nil => cases found
  | cons head items ih =>
    have length := sized head mem_cons_self
    rw [flatten_cons, append_assoc]
    cases number with
    | zero =>
      obtain rfl := Option.some.inj found
      rw [zero_mul, drop_zero, ← length, take_left]
    | succ number =>
      rw [succ_mul, add_comm, ← drop_drop, ← length, drop_left, length]
      exact ih (forall_mem_cons.mp sized).2
        found

/-! ### Kept items -/

/-- A kept item comes after as many kept items as there are before it. -/
theorem getElem?_filter {keep : Item → Bool} {items : List Item} {place : Nat} {item : Item}
    (found : items[place]? = some item) (kept : keep item = true) :
    (items.filter keep)[(items.take place).countP keep]? = some item := by
  induction items generalizing place with
  | nil => cases found
  | cons head items ih =>
    cases place with
    | zero =>
      obtain rfl := Option.some.inj found
      rw [filter_cons_of_pos kept]
      rfl
    | succ place =>
      rw [take_succ_cons, countP_cons]
      by_cases keptHead : keep head = true
      · rw [filter_cons_of_pos keptHead, if_pos keptHead, getElem?_cons_succ]
        exact ih found
      · rw [filter_cons_of_neg keptHead, if_neg keptHead]
        exact ih found

/-! ### Filling a buffer -/

variable (total fill) in
/-- A buffer that holds what was written so far, and the filler behind it. -/
def Filled (written buffer : List Byte) : Prop :=
  written.length ≤ total ∧
    buffer = written ++ List.replicate (total - written.length) fill

theorem filled_nil : Filled total fill [] (List.replicate total fill) :=
  ⟨Nat.zero_le _, by rw [length_nil, Nat.sub_zero, nil_append]⟩

variable {written buffer : List Byte}

section

variable (filled : Filled total fill written buffer)
include filled

theorem Filled.eq_of_length (length : written.length = total) : buffer = written := by
  rw [filled.2, length, Nat.sub_self, replicate_zero, append_nil]

theorem Filled.skip (count : Nat) (room : written.length + count ≤ total) :
    Filled total fill (written ++ List.replicate count fill) buffer := by
  have length : (written ++ replicate count fill).length = written.length + count := by
    rw [length_append, length_replicate]
  refine ⟨length.trans_le room, ?_⟩
  rw [filled.2, length, append_assoc, replicate_append_replicate]
  congr 2
  omega

theorem Filled.write (item : List Byte) (room : written.length + item.length ≤ total) :
    ∃ after, copyBytes item 0 item.length buffer written.length = some after ∧
      Filled total fill (written ++ item) after := by
  have length : buffer.length = total := by
    rw [filled.2, length_append, length_replicate]
    exact Nat.add_sub_cancel' filled.1
  refine ⟨_, copyBytes_eq_some.mpr ⟨(zero_add _).le, by omega, rfl⟩,
    (length_append).trans_le room, ?_⟩
  rw [filled.2, take_left, drop_zero, take_length, drop_append,
    drop_eq_nil_of_le (Nat.le_add_right _ _), nil_append, Nat.add_sub_cancel_left,
    drop_replicate, length_append, append_assoc, Nat.sub_sub]

end

/-- Blocks that are written one after the other fill a buffer that has room for all of them. -/
theorem exists_foldlM_packed {State : Type} (At : List Byte → State → Prop)
    {run : State → Nat → Option State} (block : Nat → List Byte) (count : Nat) {state : State}
    (step : ∀ number < count, ∀ state,
      At (packed align fill ((List.range number).map block)) state →
      (packed align fill ((List.range number).map block)).length +
          (withPadding align fill (block number)).length ≤
        (packed align fill ((List.range count).map block)).length →
      ∃ after, run state number = some after ∧
        At (packed align fill ((List.range number).map block) ++
          withPadding align fill (block number)) after) (start : At [] state) :
    ∃ final, (List.range count).foldlM run state = some final ∧
      At (packed align fill ((List.range count).map block)) final := by
  have more : ∀ number, packed align fill ((range (number + 1)).map block) =
      packed align fill ((range number).map block) ++
        withPadding align fill (block number) := by
    intro number
    rw [range_succ, map_append, packed_append, map_singleton, packed_singleton]
  refine Attempt.exists_foldlM_range
    (fun number => At (packed align fill ((range number).map block))) count
    (fun number less state holds => ?_) start
  rw [more]
  refine step number less state holds ?_
  obtain ⟨rest, rfl⟩ := Nat.exists_eq_add_of_le less
  have split : range (number.succ + rest) = range (number + 1) ++
      (range rest).map (number.succ + ·) := range_add
  rw [← length_append, ← more, split, map_append, packed_append, length_append]
  exact Nat.le_add_right _ _

end NpuPlugin.AlignedBlocks
