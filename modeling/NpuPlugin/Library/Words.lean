/-
This file fixes the unsigned machine arithmetic the models share. A machine word is a natural number
below `2 ^ width`; the operations wrap as the hardware's do, and the lemmas say when they agree with
the arithmetic of the natural numbers. Bit vectors serve as sets of positions.
-/

import Mathlib.Data.Nat.Bitwise
import Mathlib.Tactic.Ring

namespace NpuPlugin.Words

open Nat

/-- Addition of two unsigned words of the given width. -/
def add (width first second : Nat) : Nat := (first + second) % 2 ^ width

/-- Subtraction of two unsigned words of the given width. -/
def sub (width first second : Nat) : Nat := (first + (2 ^ width - second % 2 ^ width)) % 2 ^ width

variable (width first second : Nat)

theorem add_of_lt (fits : first + second < 2 ^ width) :
    add width first second = first + second := mod_eq_of_lt fits

theorem sub_of_le (ordered : second ≤ first) (small : second < 2 ^ width)
    (fits : first - second < 2 ^ width) : sub width first second = first - second := by
  unfold sub
  rw [mod_eq_of_lt small]
  have shifted : first + (2 ^ width - second) = first - second + 2 ^ width := by omega
  rw [shifted, add_mod_right]
  exact mod_eq_of_lt fits

/-! ### Masks -/

theorem and_not_mask {value width kept : Nat} (less : value < 2 ^ width) (ordered : kept ≤ width) :
    value &&& (2 ^ width - 1 - (2 ^ kept - 1)) = value / 2 ^ kept * 2 ^ kept := by
  refine Nat.eq_of_testBit_eq fun bit => ?_
  have small : 2 ^ kept - 1 < 2 ^ width :=
    lt_of_lt_of_le (Nat.sub_lt (Nat.two_pow_pos kept) Nat.one_pos)
      (Nat.pow_le_pow_right (by decide) ordered)
  rw [Nat.testBit_and, Nat.sub_sub, Nat.add_comm 1, Nat.testBit_two_pow_sub_succ small,
    Nat.testBit_mul_two_pow, Nat.testBit_two_pow_sub_one, Nat.testBit_div_two_pow]
  by_cases low : bit < kept
  · simp [low]
  · have high : kept ≤ bit := not_lt.mp low
    by_cases inside : bit < width
    · simp [low, inside, high]
    · have outside : value < 2 ^ bit :=
        less.trans_le (Nat.pow_le_pow_right (by decide) (not_lt.mp inside))
      simp [Nat.testBit_lt_two_pow outside, high]

/-! ### Words of 64 bits -/

variable {first second : UInt64}

theorem toNat_max (first second : UInt64) :
    (max first second).toNat = max first.toNat second.toNat := by
  have defined : max first second = if first ≤ second then second else first := rfl
  rw [defined]
  split
  · rename_i less
    exact (max_eq_right (UInt64.le_iff_toNat_le.mp less)).symm
  · rename_i greater
    exact (Nat.max_eq_left (Nat.le_of_not_le fun less =>
      greater (UInt64.le_iff_toNat_le.mpr less))).symm

theorem toNat_add (fits : first.toNat + second.toNat < 2 ^ 64) :
    (first + second).toNat = first.toNat + second.toNat := by
  rw [UInt64.toNat_add, mod_eq_of_lt fits]

theorem toNat_sub_of_lt (less : first < second) :
    (first - second).toNat = first.toNat + (2 ^ 64 - second.toNat) := by
  have below := UInt64.lt_iff_toNat_lt.mp less
  have bound := second.toNat_lt
  rw [UInt64.toNat_sub, Nat.add_comm]
  exact mod_eq_of_lt (by omega)

end NpuPlugin.Words

namespace NpuPlugin.BitMask

open List

variable {width : Nat} {Item : Type}

theorem getLsbD_foldl_set (position : Item → Nat) (items : List Item) (mask : BitVec width)
    (index : Nat) :
    (items.foldl (fun mask item => mask ||| BitVec.twoPow width (position item)) mask).getLsbD
        index = true ↔
      mask.getLsbD index = true ∨ index < width ∧ ∃ item ∈ items, position item = index := by
  induction items generalizing mask with
  | nil => simp
  | cons head tail ih =>
    rw [foldl_cons, ih, BitVec.getLsbD_or, BitVec.getLsbD_twoPow]
    simp only [Bool.or_eq_true, Bool.and_eq_true, decide_eq_true_eq, mem_cons, exists_eq_or_imp]
    constructor
    · rintro ((old | ⟨bound, same⟩) | ⟨bound, found⟩)
      · exact .inl old
      · exact .inr ⟨same ▸ bound, .inl same⟩
      · exact .inr ⟨bound, .inr found⟩
    · rintro (old | ⟨bound, same | found⟩)
      · exact .inl (.inl old)
      · exact .inl (.inr ⟨same ▸ bound, same⟩)
      · exact .inr ⟨bound, found⟩

theorem getLsbD_foldl_clear (applies : Item → Bool) (read : Item → BitVec width)
    (items : List Item) (mask : BitVec width) (index : Nat) :
    (items.foldl (fun mask item => if applies item then mask &&& ~~~ read item else mask)
        mask).getLsbD index = true ↔
      mask.getLsbD index = true ∧
        ∀ item ∈ items, applies item = true → (read item).getLsbD index = false := by
  induction items generalizing mask with
  | nil => simp
  | cons head tail ih =>
    rw [foldl_cons, ih, forall_mem_cons, ← and_assoc]
    refine and_congr_left fun _ => ?_
    by_cases used : applies head = true
    · rw [if_pos used, BitVec.getLsbD_and, BitVec.getLsbD_not]
      simp only [used, Bool.and_eq_true, decide_eq_true_eq, Bool.not_eq_true', forall_const]
      exact ⟨fun both => ⟨both.1, both.2.2⟩,
        fun both => ⟨both.1, BitVec.lt_of_getLsbD both.1, both.2⟩⟩
    · rw [if_neg used]
      exact (and_iff_left fun applied => absurd applied used).symm

variable {Failure : Type} (admitted : Item → Bool) (read : Item → BitVec width)
  (failure : Item → Failure)

/-- A loop that joins vectors and fails at an item that is not admitted. -/
theorem foldlM_join {items : List Item} {mask joined : BitVec width}
    (res : items.foldlM (fun mask item =>
      if admitted item then Except.ok (mask ||| read item) else .error (failure item)) mask =
        .ok joined) :
    (∀ item ∈ items, admitted item = true) ∧ ∀ index, joined.getLsbD index = true ↔
      mask.getLsbD index = true ∨ ∃ item ∈ items, (read item).getLsbD index = true := by
  induction items generalizing mask with
  | nil =>
    cases res
    simp
  | cons head tail ih =>
    rw [foldlM_cons] at res
    by_cases first : admitted head = true
    · rw [if_pos first] at res
      obtain ⟨rest, bits⟩ := ih res
      refine ⟨forall_mem_cons.mpr ⟨first, rest⟩, fun index => ?_⟩
      rw [bits index, BitVec.getLsbD_or, Bool.or_eq_true, or_assoc]
      simp only [mem_cons, exists_eq_or_imp]
    · rw [if_neg first] at res
      cases res

theorem foldlM_join_ok (items : List Item) (mask : BitVec width)
    (all : ∀ item ∈ items, admitted item = true) :
    ∃ joined, items.foldlM (fun mask item =>
      if admitted item then Except.ok (mask ||| read item) else .error (failure item)) mask =
        .ok joined := by
  induction items generalizing mask with
  | nil => exact ⟨mask, rfl⟩
  | cons head tail ih =>
    rw [foldlM_cons, if_pos (all head mem_cons_self)]
    exact ih _ (forall_mem_cons.mp all).2

end NpuPlugin.BitMask
