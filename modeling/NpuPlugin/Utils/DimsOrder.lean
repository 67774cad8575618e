/-
This file models how a code of 64 bits is checked before it is taken for an order of dimensions, and
how a permutation gets its code: one digit of four bits for each dimension, the innermost one
lowest. The check of the range stops at the first dimension that is not used and refuses nothing.
-/

import Mathlib.Data.Nat.Digits.Lemmas
import NpuPlugin.Library.Loop

namespace NpuPlugin.DimsOrderCode

open List Nat

/-- `MAX_NUM_DIMS`. -/
abbrev maxNumDims : Nat := 15

/-- A `Dim` checks its index. -/
abbrev Dim := Fin maxNumDims

inductive Failure
  | usedTwice (dimInd : Nat) (code : BitVec 64)
  | outOfRange (dimInd : Nat) (code : BitVec 64) (numDims : Nat)
  | notContiguous (code : BitVec 64)
  | outOfPermutation (dim : Dim) (perm : List Dim)
  | usedTwiceInPermutation (dim : Dim) (perm : List Dim)
deriving DecidableEq

/-! ### Codes -/

variable (code : BitVec 64)

/-- The first loop of `validateCode`, with the dimensions that are used. -/
def usedDims : Nat → BitVec 64 → List Nat → Except Failure (List Nat)
  | 0, _, dimUsed => .ok dimUsed
  | turns + 1, codeCopy, dimUsed =>
    let dimInd := (codeCopy &&& 0xF#64).toNat
    if dimInd = 0 then .ok dimUsed
    else if dimInd - 1 ∈ dimUsed then .error (.usedTwice (dimInd - 1) code)
    else usedDims turns (codeCopy >>> 4) (dimUsed ++ [dimInd - 1])

/-- The second loop. -/
def checkRange (dimUsed : List Nat) : List Nat → Except Failure Unit
  | [] => .ok ()
  | dimInd :: rest =>
    if dimInd ∉ dimUsed then .ok ()
    else if dimInd < dimUsed.length then checkRange dimUsed rest
    else .error (.outOfRange dimInd code dimUsed.length)

/-- The third loop. -/
def checkContiguous : Nat → BitVec 64 → Except Failure Unit
  | 0, _ => .ok ()
  | turns + 1, codeCopy =>
    if (codeCopy &&& 0xF#64).toNat = 0 then checkContiguous turns (codeCopy >>> 4)
    else .error (.notContiguous code)

def validateCode : Except Failure Unit := do
  let dimUsed ← usedDims code maxNumDims code []
  checkRange code dimUsed (List.range maxNumDims)
  checkContiguous code (maxNumDims - dimUsed.length) (code >>> (4 * dimUsed.length))

/-- An order is its code. -/
def fromCode : Except Failure (BitVec 64) := do
  validateCode code
  return code

/-! ### Permutations -/

/-- `validatePermutation`, with the dimensions in front. No index exceeds `MAX_DIM_IND`. -/
def validatePermutation (perm : List Dim) : List Dim → List Dim → Except Failure Unit
  | _, [] => .ok ()
  | dimUsed, dim :: rest =>
    if perm.length ≤ dim then .error (.outOfPermutation dim perm)
    else if dim ∈ dimUsed then .error (.usedTwiceInPermutation dim perm)
    else validatePermutation perm (dimUsed ++ [dim]) rest

def appendDigit (dim : Dim) : BitVec 64 := code <<< 4 ||| BitVec.ofNat 64 (dim.val + 1)

def getCodeFromPermutation (perm : List Dim) : Except Failure (BitVec 64) := do
  validatePermutation perm [] perm
  return perm.foldl appendDigit 0

/-! ### Digits -/

/-- The digits below the first one that is zero. -/
def lowDigits : Nat → Nat → List Nat
  | 0, _ => []
  | turns + 1, number =>
    if number % 16 = 0 then [] else number % 16 :: lowDigits turns (number / 16)

variable {code}

theorem mem_lowDigits {count number digit : Nat} (mem : digit ∈ lowDigits count number) :
    1 ≤ digit ∧ digit < 16 := by
  induction count generalizing number with
  | zero => cases mem
  | succ count ih =>
    unfold lowDigits at mem
    split at mem
    · cases mem
    · rcases mem_cons.mp mem with rfl | later
      · omega
      · exact ih later

theorem length_lowDigits_le (count number : Nat) : (lowDigits count number).length ≤ count := by
  induction count generalizing number with
  | zero => exact le_rfl
  | succ count ih =>
    unfold lowDigits
    split
    · exact Nat.zero_le _
    · exact succ_le_succ (ih _)

/-- The digits make the number when what is above them is zero. -/
theorem ofDigits_lowDigits_iff (count number : Nat) :
    ofDigits 16 (lowDigits count number) = number % 16 ^ count ↔
      number / 16 ^ (lowDigits count number).length %
        16 ^ (count - (lowDigits count number).length) = 0 := by
  induction count generalizing number with
  | zero => simp [lowDigits, Nat.mod_one]
  | succ count ih =>
    unfold lowDigits
    split
    · next zero => simp [eq_comm]
    · next nonzero =>
      rw [ofDigits_cons, length_cons, Nat.pow_succ', Nat.pow_succ', ← Nat.div_div_eq_div_mul,
        Nat.add_sub_add_right, ← ih, Nat.mod_mul, Nat.add_left_cancel_iff]
      omega

theorem lowDigits_ofDigits {count : Nat} {digits : List Nat} (length : digits.length ≤ count)
    (inside : ∀ digit ∈ digits, 1 ≤ digit ∧ digit < 16) :
    lowDigits count (ofDigits 16 digits) = digits := by
  induction digits generalizing count with
  | nil => cases count <;> simp [lowDigits]
  | cons digit rest ih =>
    obtain ⟨pos, less⟩ := inside digit mem_cons_self
    cases count with
    | zero => cases length
    | succ count =>
      rw [ofDigits_cons, lowDigits, Nat.add_mul_mod_self_left, Nat.mod_eq_of_lt less,
        if_neg (by omega), Nat.add_mul_div_left _ _ (by omega), Nat.div_eq_of_lt less, Nat.zero_add,
        ih (Nat.le_of_succ_le_succ length) fun other mem => inside other (mem_cons_of_mem _ mem)]

/-! ### What is accepted -/

theorem toNat_and_mask (codeCopy : BitVec 64) :
    (codeCopy &&& 0xF#64).toNat = codeCopy.toNat % 16 := by
  rw [BitVec.toNat_and]
  exact Nat.and_two_pow_sub_one_eq_mod codeCopy.toNat 4

theorem toNat_shift (codeCopy : BitVec 64) (count : Nat) :
    (codeCopy >>> (4 * count)).toNat = codeCopy.toNat / 16 ^ count := by
  rw [BitVec.toNat_ushiftRight, Nat.shiftRight_eq_div_pow, Nat.pow_mul]

theorem usedDims_ok_iff (count : Nat) (codeCopy : BitVec 64) {dimUsed result : List Nat}
    (distinct : dimUsed.Nodup) :
    usedDims code count codeCopy dimUsed = .ok result ↔
      result = dimUsed ++ (lowDigits count codeCopy.toNat).map pred ∧ result.Nodup := by
  induction count generalizing codeCopy dimUsed with
  | zero => grind [usedDims, lowDigits]
  | succ count ih =>
    unfold usedDims lowDigits
    rw [toNat_and_mask]
    dsimp only
    split
    · grind
    · rw [map_cons, pred_eq_sub_one]
      split
      · next used =>
        refine iff_of_false (by simp) fun both => ?_
        exact (nodup_append.mp (both.1 ▸ both.2)).2.2 _ used _ mem_cons_self rfl
      · next fresh =>
        rw [ih _ (by grind), toNat_shift codeCopy 1, pow_one, append_assoc, singleton_append]

/-- The dimensions in front are all used, so that there are more than that. -/
theorem checkRange_ok {dimUsed : List Nat} (front count : Nat)
    (used : ∀ dimInd < front, dimInd ∈ dimUsed) :
    checkRange code dimUsed (List.range' front count) = .ok () := by
  induction count generalizing front with
  | zero => rfl
  | succ count ih =>
    rw [range'_succ, checkRange]
    split
    · rfl
    · next here =>
      have each : ∀ dimInd < front + 1, dimInd ∈ dimUsed := fun dimInd less =>
        (Nat.lt_succ_iff_lt_or_eq.mp less).elim (used dimInd) fun same => same ▸ not_not.mp here
      have size := (subperm_of_subset nodup_range fun dimInd mem =>
        each dimInd (mem_range.mp mem)).length_le
      rw [length_range] at size
      rw [if_pos (show front < dimUsed.length from size), ih (front + 1) each]

theorem checkContiguous_ok_iff (count : Nat) (codeCopy : BitVec 64) :
    checkContiguous code count codeCopy = .ok () ↔ codeCopy.toNat % 16 ^ count = 0 := by
  induction count generalizing codeCopy with
  | zero => simp [checkContiguous, Nat.mod_one]
  | succ count ih =>
    unfold checkContiguous
    rw [toNat_and_mask, Nat.pow_succ', Nat.mod_mul]
    split
    · next zero =>
      rw [ih, toNat_shift codeCopy 1, pow_one, zero]
      omega
    · next nonzero => exact iff_of_false (by simp) (by omega)

/-- What the loops ask of a code: the low digits differ, and what is above them is zero, except for
the highest digit of the word. -/
theorem fromCode_ok_iff : (∃ order, fromCode code = .ok order) ↔
    (lowDigits maxNumDims code.toNat).Nodup ∧
      ofDigits 16 (lowDigits maxNumDims code.toNat) = code.toNat % 16 ^ maxNumDims := by
  have used (result : List Nat) : usedDims code maxNumDims code [] = .ok result ↔ _ :=
    usedDims_ok_iff maxNumDims code nodup_nil
  have distinct : ((lowDigits maxNumDims code.toNat).map pred).Nodup ↔
      (lowDigits maxNumDims code.toNat).Nodup := by
    refine ⟨Nodup.of_map pred, fun nodup => nodup.map_on fun first mem second other same => ?_⟩
    have := mem_lowDigits mem
    have := mem_lowDigits other
    simp only [pred_eq_sub_one] at same
    omega
  rw [nil_append] at used
  rw [ofDigits_lowDigits_iff, ← distinct]
  constructor
  · rintro ⟨order, res⟩
    obtain ⟨_, valid, _⟩ := Run.bind_ok res
    obtain ⟨dimUsed, first, rest⟩ := Run.bind_ok valid
    obtain ⟨_, _, contiguous⟩ := Run.bind_ok rest
    obtain ⟨rfl, nodup⟩ := (used dimUsed).mp first
    rw [checkContiguous_ok_iff, toNat_shift, length_map] at contiguous
    exact ⟨nodup, contiguous⟩
  · rintro ⟨nodup, contiguous⟩
    have valid : validateCode code = .ok () := by
      unfold validateCode
      rw [Run.ok_bind ((used _).mpr ⟨rfl, nodup⟩), range_eq_range',
        Run.ok_bind (checkRange_ok 0 _ fun _ less => absurd less (Nat.not_lt_zero _)),
        checkContiguous_ok_iff, toNat_shift, length_map]
      exact contiguous
    exact ⟨code, Run.ok_bind valid _⟩

/-! ### The codes of permutations -/

theorem validatePermutation_ok_iff {perm dimUsed : List Dim} (rest : List Dim)
    (distinct : dimUsed.Nodup) : validatePermutation perm dimUsed rest = .ok () ↔
      (∀ dim ∈ rest, dim.val < perm.length) ∧ (dimUsed ++ rest).Nodup := by
  induction rest generalizing dimUsed with
  | nil => simpa [validatePermutation] using distinct
  | cons dim rest ih =>
    unfold validatePermutation
    split
    · next outside =>
      exact iff_of_false (by simp) fun both => outside.not_gt (both.1 dim mem_cons_self)
    · next inside =>
      split
      · next used =>
        refine iff_of_false (by simp) fun both => ?_
        exact (nodup_append.mp both.2).2.2 _ used _ mem_cons_self rfl
      · next fresh =>
        rw [ih (by grind), append_assoc, singleton_append, forall_mem_cons]
        exact and_congr (iff_and_self.mpr fun _ => not_le.mp inside) Iff.rfl

theorem toNat_appendDigit (dim : Dim) (small : code.toNat < 16 ^ 15) :
    (appendDigit code dim).toNat = code.toNat * 16 + (dim.val + 1) := by
  have less := dim.isLt
  unfold maxNumDims at less
  unfold appendDigit
  rw [BitVec.toNat_or, BitVec.toNat_shiftLeft, BitVec.toNat_ofNat, Nat.shiftLeft_eq,
    Nat.mod_eq_of_lt (by omega), Nat.mod_eq_of_lt (by omega), ← Nat.shiftLeft_eq,
    ← Nat.shiftLeft_add_eq_or_of_lt (by omega), Nat.shiftLeft_eq]

theorem toNat_foldl (perm : List Dim) (front : Nat) (start : BitVec 64)
    (below : start.toNat < 16 ^ front) (room : front + perm.length ≤ maxNumDims) :
    (perm.foldl appendDigit start).toNat =
      ofDigits 16 (perm.map fun dim => dim.val + 1).reverse + 16 ^ perm.length * start.toNat := by
  induction perm generalizing front start with
  | nil => simp
  | cons dim rest ih =>
    have less := dim.isLt
    rw [length_cons] at room
    unfold maxNumDims at less room
    have small : start.toNat < 16 ^ 15 :=
      below.trans_le (Nat.pow_le_pow_right (by decide) (by omega))
    have next := toNat_appendDigit dim small
    rw [foldl_cons, ih (front + 1) _ (by rw [next]; omega) (by unfold maxNumDims; omega), next,
      map_cons, reverse_cons, ofDigits_append, ofDigits_singleton, length_reverse, length_map,
      length_cons]
    ring

/-- The codes of permutations: the digits are the numbers from one to their count. -/
theorem exists_permutation_iff : (∃ perm, getCodeFromPermutation perm = .ok code) ↔
    (lowDigits maxNumDims code.toNat).Nodup ∧
      ofDigits 16 (lowDigits maxNumDims code.toNat) = code.toNat % 16 ^ maxNumDims ∧
        code.toNat < 16 ^ maxNumDims ∧ ∀ digit ∈ lowDigits maxNumDims code.toNat,
          digit ≤ (lowDigits maxNumDims code.toNat).length := by
  constructor
  · rintro ⟨perm, res⟩
    obtain ⟨_, valid, same⟩ := Run.bind_ok res
    cases same
    obtain ⟨inside, nodup⟩ := (validatePermutation_ok_iff perm nodup_nil).mp valid
    rw [nil_append] at nodup
    have distinct : (perm.map Fin.val).Nodup := nodup.map fun _ _ => Fin.ext
    have few : perm.length ≤ maxNumDims := by
      have size := (subperm_of_subset distinct fun dim mem => by
        obtain ⟨dim, _, rfl⟩ := mem_map.mp mem
        exact mem_range.mpr dim.isLt).length_le
      rwa [length_map, length_range] at size
    have number := toNat_foldl perm 0 0 (by decide) (by omega)
    rw [show (0 : BitVec 64).toNat = 0 from rfl, Nat.mul_zero, Nat.add_zero] at number
    have digits : lowDigits maxNumDims (perm.foldl appendDigit 0).toNat =
        (perm.map fun dim => dim.val + 1).reverse := by
      rw [number]
      refine lowDigits_ofDigits (by simpa) fun digit mem => ?_
      obtain ⟨dim, _, rfl⟩ := mem_map.mp (mem_reverse.mp mem)
      exact ⟨by omega, Nat.succ_lt_succ dim.isLt⟩
    have below : ofDigits 16 (perm.map fun dim => dim.val + 1).reverse < 16 ^ maxNumDims := by
      refine (ofDigits_lt_base_pow_length (by decide) fun digit mem => ?_).trans_le
        (Nat.pow_le_pow_right (by decide) (by simpa using few))
      rw [← digits] at mem
      exact (mem_lowDigits mem).2
    rw [digits, number, Nat.mod_eq_of_lt below]
    refine ⟨nodup_reverse.mpr (nodup.map fun first second same => ?_), rfl, below,
      fun digit mem => ?_⟩
    · exact Fin.ext (Nat.succ_inj.mp same)
    · obtain ⟨dim, present, rfl⟩ := mem_map.mp (mem_reverse.mp mem)
      simpa using inside dim present
  · rintro ⟨nodup, number, below, inside⟩
    rw [Nat.mod_eq_of_lt below] at number
    have few := length_lowDigits_le maxNumDims code.toNat
    have bounds : ∀ digit ∈ lowDigits maxNumDims code.toNat, 1 ≤ digit ∧ digit < 16 :=
      fun _ => mem_lowDigits
    generalize lowDigits maxNumDims code.toNat = digits at *
    have value : ∀ digit ∈ digits, (Fin.ofNat 15 (digit - 1)).val + 1 = digit := by
      intro digit mem
      have := bounds digit mem
      rw [Fin.val_ofNat]
      omega
    have same : ((digits.map fun digit => Fin.ofNat 15 (digit - 1)).reverse.map
        fun dim => dim.val + 1).reverse = digits := by
      rw [map_reverse, reverse_reverse, map_map]
      exact (map_congr_left value).trans (map_id _)
    have valid : validatePermutation (digits.map fun digit => Fin.ofNat 15 (digit - 1)).reverse []
        (digits.map fun digit => Fin.ofNat 15 (digit - 1)).reverse = .ok () := by
      rw [validatePermutation_ok_iff _ nodup_nil, nil_append, nodup_reverse, length_reverse,
        length_map]
      refine ⟨fun dim mem => ?_, nodup.map_on fun first mem second other same => ?_⟩
      · obtain ⟨digit, present, rfl⟩ := mem_map.mp (mem_reverse.mp mem)
        exact (value digit present).trans_le (inside digit present)
      · rw [← value first mem, ← value second other, same]
    refine ⟨_, (Run.ok_bind valid _).trans (congrArg Except.ok (BitVec.eq_of_toNat_eq ?_))⟩
    rw [toNat_foldl _ 0 0 (by decide) (by simpa using few), same, number]
    rfl

/-- A code is refused or it is the one of a permutation unless the digits skip a number or the
highest digit of the word, which no loop reads, is set. -/
theorem fromCode_iff_permutation_iff (code : BitVec 64) :
    ((∃ order, fromCode code = .ok order) ↔ ∃ perm, getCodeFromPermutation perm = .ok code) ↔
      ¬ ((lowDigits maxNumDims code.toNat).Nodup ∧
        ofDigits 16 (lowDigits maxNumDims code.toNat) = code.toNat % 16 ^ maxNumDims ∧
          (16 ^ maxNumDims ≤ code.toNat ∨ ∃ digit ∈ lowDigits maxNumDims code.toNat,
            (lowDigits maxNumDims code.toNat).length < digit)) := by
  rw [fromCode_ok_iff, exists_permutation_iff, ← not_lt]
  grind

/-- The digit 3 alone. -/
theorem thirdAlone_accepted : fromCode 0x3#64 = .ok 0x3#64 ∧
    ¬ ∃ perm, getCodeFromPermutation perm = .ok 0x3#64 := by
  refine ⟨by rfl, fun found => ?_⟩
  exact absurd (exists_permutation_iff.mp found).2.2 (by decide)

end NpuPlugin.DimsOrderCode
