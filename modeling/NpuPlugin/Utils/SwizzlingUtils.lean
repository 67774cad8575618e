/-
This file models how much memory is reserved for swizzled buffers. The requirement is the largest
end address that any order of the buffers can reach.
-/

import Mathlib.Order.Bounds.Basic
import NpuPlugin.Library.AlignedBlocks

namespace NpuPlugin.SwizzlingUtils

open AlignedBlocks List Nat

variable {offsetAlignment sizeAlignment : Nat} {bufferSizes placed : List Nat}

/-! ### The requirement -/

/-- What a buffer of this size lacks to the next aligned offset. -/
def offsetDelta (offsetAlignment size : Nat) : Nat :=
  if size % offsetAlignment = 0 then 0 else offsetAlignment - size % offsetAlignment

/-- What `llvm::sort` may return: sizes that lack equally much are in any order. -/
structure SortedSizes (offsetAlignment : Nat) (bufferSizes : List Nat) where
  sizes : List Nat
  perm : sizes.Perm bufferSizes
  sorted : sizes.Pairwise fun first second =>
    offsetDelta offsetAlignment second ≤ offsetDelta offsetAlignment first

def allocate (offsetAlignment sizeAlignment offset buffSize : Nat) : Nat :=
  let offset := if offset % offsetAlignment ≠ 0 then
      offset + (offsetAlignment - offset % offsetAlignment) else offset
  offset + if buffSize % sizeAlignment = 0 then buffSize
    else (buffSize / sizeAlignment + 1) * sizeAlignment

/-- Sizes and alignments that are not positive are zero here, and throw. -/
def calculateAlignedBuffersMemoryRequirement (bufferSizes : List Nat)
    (offsetAlignment sizeAlignment : Nat) (order : SortedSizes offsetAlignment bufferSizes) :
    Option Nat :=
  if offsetAlignment = 0 ∨ sizeAlignment = 0 ∨ 0 ∈ bufferSizes then none
  else if offsetAlignment = 1 ∧ sizeAlignment = 1 then some bufferSizes.sum
  else some (order.sizes.foldl (allocate offsetAlignment sizeAlignment) 0)

/-! ### Placements -/

/-- Where the last buffer ends when each one starts at the next aligned offset. -/
def endAddress (offsetAlignment sizeAlignment : Nat) (placed : List Nat) : Nat :=
  placed.foldl (fun last size => alignUp offsetAlignment last + alignUp sizeAlignment size) 0

/-- The addresses at which a buffer ends in some order of them all. -/
def Reached (offsetAlignment sizeAlignment : Nat) (bufferSizes : List Nat) : Set Nat :=
  {address | ∃ placed : List Nat, ∃ count, placed.Perm bufferSizes ∧
    address = endAddress offsetAlignment sizeAlignment (placed.take (count + 1))}

theorem offsetDelta_add (pos : 0 < offsetAlignment) (size : Nat) :
    size + offsetDelta offsetAlignment size = alignUp offsetAlignment size := by
  have below := mod_lt size pos
  unfold offsetDelta
  split
  · rename_i whole
    exact (alignUp_of_dvd pos (dvd_of_mod_eq_zero whole)).symm
  · rename_i rest
    have split := div_add_mod size offsetAlignment
    have aligned : offsetAlignment ∣ size + (offsetAlignment - size % offsetAlignment) :=
      ⟨size / offsetAlignment + 1, by rw [mul_add, mul_one]; omega⟩
    refine le_antisymm ?_ (alignUp_le pos aligned (le_add_right _ _))
    obtain ⟨times, isMultiple⟩ := dvd_alignUp offsetAlignment size
    have above := le_alignUp pos size
    rw [isMultiple] at above ⊢
    have more : size / offsetAlignment < times := by
      by_contra few
      have := mul_le_mul_left offsetAlignment (not_lt.mp few)
      omega
    have := mul_le_mul_left offsetAlignment more
    rw [mul_succ] at this
    omega

theorem allocate_eq (offsetPos : 0 < offsetAlignment) (sizePos : 0 < sizeAlignment)
    (offset buffSize : Nat) : allocate offsetAlignment sizeAlignment offset buffSize =
      alignUp offsetAlignment offset + alignUp sizeAlignment buffSize := by
  have start : (if offset % offsetAlignment ≠ 0 then
      offset + (offsetAlignment - offset % offsetAlignment) else offset) =
        alignUp offsetAlignment offset := by
    rw [← offsetDelta_add offsetPos, offsetDelta]
    split_ifs <;> first | rfl | contradiction
  have size : (if buffSize % sizeAlignment = 0 then buffSize
      else (buffSize / sizeAlignment + 1) * sizeAlignment) = alignUp sizeAlignment buffSize := by
    rw [← offsetDelta_add sizePos, offsetDelta]
    split
    · rfl
    · have split := div_add_mod buffSize sizeAlignment
      have below := mod_lt buffSize sizePos
      rw [succ_mul, mul_comm]
      omega
  exact congrArg₂ (· + ·) start size

theorem endAddress_concat (front : List Nat) (last : Nat) :
    endAddress offsetAlignment sizeAlignment (front ++ [last]) =
      alignUp offsetAlignment (endAddress offsetAlignment sizeAlignment front) +
        alignUp sizeAlignment last := by
  rw [endAddress, foldl_append]
  rfl

section

variable (offsetPos : 0 < offsetAlignment) (sizePos : 0 < sizeAlignment)
  (divides : sizeAlignment ∣ offsetAlignment)

include offsetPos sizePos divides

theorem alignUp_endAddress (placed : List Nat) :
    alignUp offsetAlignment (endAddress offsetAlignment sizeAlignment placed) =
      (placed.map (alignUp offsetAlignment)).sum := by
  induction placed using List.reverseRecOn with
  | nil => exact alignUp_of_dvd offsetPos (dvd_zero _)
  | append_singleton front last ih =>
    rw [endAddress_concat, alignUp_add offsetPos (dvd_alignUp _ _),
      alignUp_alignUp sizePos offsetPos divides, ih, map_append,
      sum_append]
    rfl

theorem endAddress_add (front : List Nat) (last : Nat) :
    endAddress offsetAlignment sizeAlignment (front ++ [last]) + alignUp offsetAlignment last =
      ((front ++ [last]).map (alignUp offsetAlignment)).sum + alignUp sizeAlignment last := by
  rw [endAddress_concat, alignUp_endAddress offsetPos sizePos divides, map_append,
    sum_append, map_singleton, sum_singleton]
  omega

theorem padding_le {small large : Nat}
    (lacks : offsetDelta offsetAlignment small ≤ offsetDelta offsetAlignment large) :
    alignUp offsetAlignment small + alignUp sizeAlignment large ≤
      alignUp offsetAlignment large + alignUp sizeAlignment small := by
  have smallEnd := offsetDelta_add offsetPos small
  have largeEnd := offsetDelta_add offsetPos large
  have rounded := le_alignUp sizePos small
  have aligned : sizeAlignment ∣ alignUp offsetAlignment large -
      (alignUp offsetAlignment small - alignUp sizeAlignment small) :=
    dvd_sub (divides.trans (dvd_alignUp _ _))
      (dvd_sub (divides.trans (dvd_alignUp _ _)) (dvd_alignUp _ _))
  have := alignUp_le sizePos aligned (show large ≤ _ by omega)
  omega

/-- A size that lacks least is placed last. -/
theorem endAddress_le {last : Nat} {front : List Nat}
    (least : ∀ size ∈ bufferSizes, offsetDelta offsetAlignment last ≤
      offsetDelta offsetAlignment size)
    (all : (front ++ [last]).Perm bufferSizes) {count : Nat} (isPlaced : placed.Perm bufferSizes) :
    endAddress offsetAlignment sizeAlignment (placed.take count) ≤
      endAddress offsetAlignment sizeAlignment (front ++ [last]) := by
  rcases eq_nil_or_concat (placed.take count) with none | ⟨others, other, isTaken⟩
  · rw [none]
    exact zero_le _
  · rw [concat_eq_append] at isTaken
    have mem : other ∈ placed.take count := by simp [isTaken]
    have lacks := padding_le offsetPos sizePos divides
      (least other (isPlaced.subset (mem_of_mem_take mem)))
    have ended := endAddress_add offsetPos sizePos divides front last
    have reached := endAddress_add offsetPos sizePos divides others other
    have total : ((front ++ [last]).map (alignUp offsetAlignment)).sum =
        ((placed.take count).map (alignUp offsetAlignment)).sum +
          ((placed.drop count).map (alignUp offsetAlignment)).sum := by
      rw [← sum_append, ← map_append, take_append_drop]
      exact ((all.trans isPlaced.symm).map _).sum_eq
    rw [isTaken] at total ⊢
    omega

end

theorem calculate_eq (offsetPos : 0 < offsetAlignment) (sizePos : 0 < sizeAlignment)
    (order : SortedSizes offsetAlignment bufferSizes) (pos : ∀ size ∈ bufferSizes, 0 < size) :
    calculateAlignedBuffersMemoryRequirement bufferSizes offsetAlignment sizeAlignment order =
      some (endAddress offsetAlignment sizeAlignment order.sizes) := by
  have accepted : ¬ (offsetAlignment = 0 ∨ sizeAlignment = 0 ∨ 0 ∈ bufferSizes) := by
    rintro (none | none | mem)
    · exact offsetPos.ne' none
    · exact sizePos.ne' none
    · exact (pos 0 mem).ne' rfl
  have same : allocate offsetAlignment sizeAlignment = fun last size =>
      alignUp offsetAlignment last + alignUp sizeAlignment size := by
    funext offset buffSize
    exact allocate_eq offsetPos sizePos offset buffSize
  unfold calculateAlignedBuffersMemoryRequirement
  rw [if_neg accepted, same]
  split
  · rename_i ones
    obtain ⟨rfl, rfl⟩ := ones
    have whole : (fun last size => alignUp 1 last + alignUp 1 size) = (· + ·) := by
      funext last size
      rw [alignUp_of_dvd one_pos (one_dvd _), alignUp_of_dvd one_pos (one_dvd _)]
    rw [endAddress, whole, ← sum_eq_foldl, order.perm.sum_eq]
  · rfl

/-- The requirement is a tight bound, so the order of the sizes does not matter. -/
theorem calculateAlignedBuffersMemoryRequirement_isGreatest (nonempty : bufferSizes ≠ [])
    (pos : ∀ size ∈ bufferSizes, 0 < size) (offsetPos : 0 < offsetAlignment)
    (divides : sizeAlignment ∣ offsetAlignment) (order : SortedSizes offsetAlignment bufferSizes) :
    ∃ requirement,
      calculateAlignedBuffersMemoryRequirement bufferSizes offsetAlignment sizeAlignment order =
        some requirement ∧
      IsGreatest (Reached offsetAlignment sizeAlignment bufferSizes) requirement ∧
      ∀ otherSizes (otherOrder : SortedSizes offsetAlignment otherSizes),
        otherSizes.Perm bufferSizes →
          calculateAlignedBuffersMemoryRequirement otherSizes offsetAlignment sizeAlignment
            otherOrder = some requirement := by
  have sizePos := pos_of_dvd_of_pos divides offsetPos
  have evaluated := fun (sizes : List Nat) (other : SortedSizes offsetAlignment sizes)
    (same : sizes.Perm bufferSizes) => calculate_eq offsetPos sizePos other
      fun size mem => pos size (same.subset mem)
  have least : ∀ (sizes : List Nat) (other : SortedSizes offsetAlignment sizes),
      sizes.Perm bufferSizes → IsGreatest (Reached offsetAlignment sizeAlignment bufferSizes)
        (endAddress offsetAlignment sizeAlignment other.sizes) := by
    intro sizes other same
    have all := other.perm.trans same
    refine ⟨⟨other.sizes, other.sizes.length, all, by rw [take_of_length_le (by omega)]⟩, ?_⟩
    rintro address ⟨placed, count, isPlaced, rfl⟩
    have some : other.sizes ≠ [] := fun none => nonempty (by
      rw [none] at all
      exact all.nil_eq.symm)
    have split := dropLast_append_getLast some
    refine (endAddress_le offsetPos sizePos divides ?_ (split.symm ▸ all) isPlaced).trans_eq
      (congrArg _ split)
    intro size mem
    have sorted := other.sorted
    rw [← split] at sorted
    rcases mem_append.mp (split.symm ▸ all.symm.subset mem) with inFront | isLast
    · exact (pairwise_append.mp sorted).2.2 size inFront _ (mem_singleton_self _)
    · rw [mem_singleton.mp isLast]
  refine ⟨_, evaluated bufferSizes order (.refl _), least bufferSizes order (.refl _), ?_⟩
  intro otherSizes otherOrder same
  rw [evaluated otherSizes otherOrder same,
    (least otherSizes otherOrder same).unique (least bufferSizes order (.refl _))]

/-- In the given order they end at 2688 and not at 3072. -/
theorem calculateAlignedBuffersMemoryRequirement_isGreatest_three : ∃ requirement,
    calculateAlignedBuffersMemoryRequirement [100, 1000, 600] 1024 64
      ⟨[100, 600, 1000], by decide, by decide⟩ = some requirement ∧
    IsGreatest (Reached 1024 64 [100, 1000, 600]) requirement ∧
    ∀ otherSizes (otherOrder : SortedSizes 1024 otherSizes),
      otherSizes.Perm [100, 1000, 600] →
        calculateAlignedBuffersMemoryRequirement otherSizes 1024 64 otherOrder =
          some requirement :=
  calculateAlignedBuffersMemoryRequirement_isGreatest (by decide) (by decide) (by decide)
    (by decide) ⟨[100, 600, 1000], by decide, by decide⟩

end NpuPlugin.SwizzlingUtils
