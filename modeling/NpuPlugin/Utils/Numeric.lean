/-
This file models the integer helpers of the compiler at signed types. Division rounds towards zero.
-/

import Mathlib.Tactic.Linarith

namespace NpuPlugin

open Int

def divUp (first second : Int) : Int := (first + second - 1).tdiv second

/-- The alignment is not zero, which is not supported. -/
def Signed.alignValUp (val align : Int) : Int :=
  let isPos := if 0 ≤ val then 1 else 0
  (val + isPos * (align - 1)).tdiv align * align

def Signed.alignValDown (val align : Int) : Int := val.tdiv align * align

section Values

variable {val align divisor : Int}

theorem divUp_bounds (nonneg : 0 ≤ val) (pos : 0 < divisor) :
    val ≤ divUp val divisor * divisor ∧ divUp val divisor * divisor < val + divisor := by
  unfold divUp
  rw [tdiv_eq_ediv_of_nonneg (by omega)]
  have split := mul_ediv_add_emod (val + divisor - 1) divisor
  have below := emod_lt_of_pos (val + divisor - 1) pos
  have above := emod_nonneg (val + divisor - 1) pos.ne'
  rw [mul_comm]
  omega

theorem divUp_nonneg (nonneg : 0 ≤ val) (pos : 0 < divisor) : 0 ≤ divUp val divisor :=
  nonneg_of_mul_nonneg_left (nonneg.trans (divUp_bounds nonneg pos).1) pos

theorem divUp_pos (pos : 0 < val) (divisorPos : 0 < divisor) : 0 < divUp val divisor :=
  pos_of_mul_pos_left (pos.trans_le (divUp_bounds pos.le divisorPos).1) divisorPos.le

/-- The smallest multiple of the alignment that is not below the value. -/
theorem Signed.alignValUp_bounds (nonneg : 0 ≤ val) (pos : 0 < align) :
    align ∣ Signed.alignValUp val align ∧ val ≤ Signed.alignValUp val align ∧
      Signed.alignValUp val align < val + align := by
  unfold Signed.alignValUp
  dsimp only
  rw [if_pos nonneg, one_mul, tdiv_eq_ediv_of_nonneg (by omega)]
  have split := mul_ediv_add_emod (val + (align - 1)) align
  have below := emod_lt_of_pos (val + (align - 1)) pos
  have above := emod_nonneg (val + (align - 1)) pos.ne'
  rw [mul_comm]
  exact ⟨dvd_mul_right _ _, by omega, by omega⟩

/-- The largest multiple of the alignment that is not above the value. -/
theorem Signed.alignValDown_bounds (nonneg : 0 ≤ val) (pos : 0 < align) :
    align ∣ Signed.alignValDown val align ∧ Signed.alignValDown val align ≤ val ∧
      val < Signed.alignValDown val align + align := by
  unfold Signed.alignValDown
  rw [tdiv_eq_ediv_of_nonneg nonneg]
  have split := mul_ediv_add_emod val align
  have below := emod_lt_of_pos val pos
  have above := emod_nonneg val pos.ne'
  rw [mul_comm]
  exact ⟨dvd_mul_right _ _, by omega, by omega⟩

end Values

end NpuPlugin
