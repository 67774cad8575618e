/-
This file models requirements on the strides of a shape in memory and the join of two lists of them,
and proves when the joined list stands for both. The assertion of `add`, which a release build does
not have, is left out.
-/

import NpuPlugin.Library.Loop
import NpuPlugin.Utils.Numeric
import Mathlib.Data.List.Nodup

namespace NpuPlugin.StrideReqs

open List Option Run

/-! ### Requirements -/

inductive StrideReqKind
  | Compact
  | Aligned (alignment : Int)
  | Fixed (fixedValue : Int)
deriving DecidableEq, Repr

/-- `DimStrideReq::verifyAttrs` -/
def StrideReqKind.Verified : StrideReqKind → Prop
  | .Compact => True
  | .Aligned alignment => ∃ exponent : Nat, alignment = 2 ^ exponent
  | .Fixed fixedValue => 0 < fixedValue

structure DimStrideReq where
  memDim : Nat
  kind : StrideReqKind
  verified : kind.Verified

inductive JoinFailure
  | differentFixed (memDim : Nat) (curValue otherValue : Int)
  | notSatisfied (mergedStrides : List Int)
deriving DecidableEq, Repr

def memDims (reqs : List DimStrideReq) : List Nat := reqs.map DimStrideReq.memDim

def reqFor (reqs : List DimStrideReq) (memDim : Nat) : Option DimStrideReq :=
  reqs.find? fun req => req.memDim = memDim

def kindFor (reqs : List DimStrideReq) (memDim : Nat) : Option StrideReqKind :=
  (reqFor reqs memDim).map DimStrideReq.kind

/-- `applyStrideReq`, when there is a requirement. -/
def applyStrideReq (baseStride : Int) : Option StrideReqKind → Int
  | none => baseStride
  | some .Compact => baseStride
  | some (.Aligned alignment) => Signed.alignValUp baseStride alignment
  | some (.Fixed fixedValue) => fixedValue

section

variable (reqs : List DimStrideReq) (elemSize : Int)

/-- What the next dimension takes up, given the strides and extents from there on. -/
def baseStride : List Int → List Int → Int
  | stride :: _, extent :: _ => stride * extent
  | _, _ => elemSize

/-- The strides from a dimension on. -/
def calcStrides : Nat → List Int → List Int
  | _, [] => []
  | ind, _ :: memShape =>
    applyStrideReq (baseStride elemSize (calcStrides (ind + 1) memShape) memShape)
      (kindFor reqs ind) :: calcStrides (ind + 1) memShape

/-- The least stride: one element less than the next dimension takes up. -/
def leastStride : List Int → List Int → Int
  | stride :: _, extent :: _ => stride * extent - elemSize
  | _, _ => elemSize

def satisfies (baseStride stride : Int) : StrideReqKind → Bool
  | .Compact => stride = baseStride
  | .Aligned alignment => stride.tmod alignment = 0
  | .Fixed fixedValue => stride = fixedValue

/-- `checkStrides` from a dimension on. There are as many strides as extents. -/
def checkStrides : Nat → List Int → List Int → Bool
  | ind, stride :: memStrides, _ :: memShape =>
    leastStride elemSize memStrides memShape ≤ stride &&
      (kindFor reqs ind).all (satisfies (baseStride elemSize memStrides memShape) stride) &&
      checkStrides (ind + 1) memStrides memShape
  | _, [], [] => true
  | _, _, _ => false

end

def mergeReq (curReq otherReq : DimStrideReq) : Except JoinFailure DimStrideReq :=
  match curReq.kind, otherReq.kind with
  | .Fixed curValue, .Fixed otherValue =>
    if curValue = otherValue then .ok otherReq
    else .error (.differentFixed curReq.memDim curValue otherValue)
  | _, .Fixed _ => .ok otherReq
  | _, _ => .ok curReq

def join (cur other : List DimStrideReq) (elemSize : Int) (memShape : List Int) :
    Except JoinFailure (List DimStrideReq) := do
  let first ← cur.mapM fun curReq =>
    (reqFor other curReq.memDim).elim (.ok curReq) fun otherReq => mergeReq curReq otherReq
  let second ← other.mapM fun otherReq =>
    (reqFor cur otherReq.memDim).elim (.ok otherReq) fun curReq => mergeReq curReq otherReq
  let merged := first ++ second
  let mergedStrides := calcStrides merged elemSize 0 memShape
  if checkStrides cur elemSize 0 mergedStrides memShape &&
      checkStrides other elemSize 0 mergedStrides memShape then return merged
  else throw (.notSatisfied mergedStrides)

/-! ### Lists for different dimensions -/

def Separate (cur other : List DimStrideReq) : Prop := List.Disjoint (memDims cur) (memDims other)

variable {cur other reqs : List DimStrideReq} {elemSize : Int} {memShape memStrides : List Int}

theorem memDims_append (cur other : List DimStrideReq) :
    memDims (cur ++ other) = memDims cur ++ memDims other := map_append

theorem reqFor_eq_none_iff {memDim : Nat} : reqFor reqs memDim = none ↔ memDim ∉ memDims reqs := by
  simp [reqFor, memDims]

theorem Separate.reqFor_none (separate : Separate cur other) (memDim : Nat) :
    reqFor cur memDim = none ∨ reqFor other memDim = none := by
  rw [reqFor_eq_none_iff, reqFor_eq_none_iff]
  by_contra both
  rw [not_or, not_not, not_not] at both
  exact separate both.1 both.2

theorem reqFor_append (memDim : Nat) :
    reqFor (cur ++ other) memDim = (reqFor cur memDim).or (reqFor other memDim) :=
  find?_append

section

variable (separate : Separate cur other)
include separate

theorem Separate.checkStrides_append (ind : Nat) :
    checkStrides (cur ++ other) elemSize ind memStrides memShape =
      (checkStrides cur elemSize ind memStrides memShape &&
        checkStrides other elemSize ind memStrides memShape) := by
  induction memStrides generalizing ind memShape with
  | nil => cases memShape <;> rfl
  | cons stride memStrides ih =>
    cases memShape with
    | nil => rfl
    | cons extent memShape =>
      simp only [checkStrides, kindFor]
      rw [ih, reqFor_append]
      rcases separate.reqFor_none ind with isNone | isNone <;> rw [isNone] <;> grind

/-- The joined list has the requirements of both, whichever is first. -/
theorem Separate.calcStrides_comm (ind : Nat) :
    calcStrides (cur ++ other) elemSize ind memShape =
      calcStrides (other ++ cur) elemSize ind memShape := by
  induction memShape generalizing ind with
  | nil => rfl
  | cons extent memShape ih =>
    rw [calcStrides, calcStrides, ih, kindFor, kindFor, reqFor_append, reqFor_append]
    rcases separate.reqFor_none ind with isNone | isNone <;>
      rw [isNone, none_or, or_none]

theorem Separate.symm : Separate other cur := fun _ isOther isCur => separate isCur isOther

theorem Separate.mapM_eq (merge : DimStrideReq → DimStrideReq → Except JoinFailure DimStrideReq) :
    (cur.mapM fun curReq => (reqFor other curReq.memDim).elim (.ok curReq) (merge curReq)) =
      .ok cur := by
  refine (mapM_ok cur fun curReq mem => ?_).trans (congrArg _ cur.map_id)
  rw [reqFor_eq_none_iff.mpr (separate (mem_map_of_mem mem))]
  rfl

theorem Separate.join_eq :
    join cur other elemSize memShape =
      if checkStrides (cur ++ other) elemSize 0 (calcStrides (cur ++ other) elemSize 0 memShape)
        memShape then .ok (cur ++ other)
      else .error (.notSatisfied (calcStrides (cur ++ other) elemSize 0 memShape)) := by
  rw [separate.checkStrides_append]
  exact (ok_bind (separate.mapM_eq _) _).trans (ok_bind (separate.symm.mapM_eq _) _)

end

theorem mergeReq_memDim {curReq otherReq merged : DimStrideReq}
    (same : otherReq.memDim = curReq.memDim) (res : mergeReq curReq otherReq = .ok merged) :
    merged.memDim = curReq.memDim := by
  unfold mergeReq at res
  split at res
  · split at res
    · cases res
      exact same
    · cases res
  · cases res
    exact same
  · cases res
    rfl

theorem memDim_eq {memDim : Nat} {req : DimStrideReq} (found : reqFor reqs memDim = some req) :
    req.memDim = memDim := by
  have passes := find?_some found
  exact of_decide_eq_true passes

variable {merged : List DimStrideReq}

theorem memDims_of_mapM {run : DimStrideReq → Except JoinFailure DimStrideReq}
    (ran : reqs.mapM run = .ok merged)
    (keeps : ∀ req res, run req = .ok res → res.memDim = req.memDim) :
    memDims merged = memDims reqs :=
  (forall₂_eq_eq_eq ▸ forall₂_map_left_iff.mpr (forall₂_map_right_iff.mpr
    ((Alongside.of_mapM ran).imp fun req res done => (keeps req res done).symm))).symm

theorem separate_of_join (joined : join cur other elemSize memShape = .ok merged)
    (nodup : (memDims merged).Nodup) : Separate cur other := by
  obtain ⟨first, ranFirst, rest⟩ := bind_ok joined
  obtain ⟨second, ranSecond, rest⟩ := bind_ok rest
  dsimp only at rest
  split at rest
  · cases rest
    have firstDims := memDims_of_mapM ranFirst fun curReq merged res => by
      cases found : reqFor other curReq.memDim with
      | none => rw [found] at res; cases res; rfl
      | some otherReq => rw [found] at res; exact mergeReq_memDim (memDim_eq found) res
    have secondDims := memDims_of_mapM ranSecond fun otherReq merged res => by
      cases found : reqFor cur otherReq.memDim with
      | none => rw [found] at res; cases res; rfl
      | some curReq =>
        rw [found] at res
        exact (mergeReq_memDim (memDim_eq found).symm res).trans (memDim_eq found)
    rw [memDims_append, firstDims, secondDims] at nodup
    exact nodup.disjoint
  · cases rest

/-! ### The least strides -/

/-- The strides but the fixed ones leave room for the whole next dimension, where the check
tolerates one element less. -/
def WithoutTolerance (reqs : List DimStrideReq) (elemSize : Int) :
    Nat → List Int → List Int → Prop
  | ind, stride :: memStrides, _ :: memShape =>
    ((∃ fixedValue, kindFor reqs ind = some (.Fixed fixedValue)) ∨
      baseStride elemSize memStrides memShape ≤ stride) ∧
      WithoutTolerance reqs elemSize (ind + 1) memStrides memShape
  | _, _, _ => True

theorem verified_of_kindFor {memDim : Nat} {kind : StrideReqKind}
    (found : kindFor reqs memDim = some kind) : kind.Verified := by
  obtain ⟨req, -, rfl⟩ := map_eq_some_iff.mp found
  exact req.verified

theorem strides_mono (elemSize : Int) {least : List Int}
    (below : List.Forall₂ (· ≤ ·) least memStrides) (pos : ∀ extent ∈ memShape, 0 < extent) :
    baseStride elemSize least memShape ≤ baseStride elemSize memStrides memShape ∧
      leastStride elemSize least memShape ≤ leastStride elemSize memStrides memShape := by
  cases below with
  | nil => exact ⟨le_rfl, le_rfl⟩
  | cons less _ =>
    cases memShape with
    | nil => exact ⟨le_rfl, le_rfl⟩
    | cons extent memShape =>
      have scaled := mul_le_mul_of_nonneg_right less (pos extent mem_cons_self).le
      exact ⟨scaled, sub_le_sub_right scaled _⟩

/-- What is applied is the least stride with the requirement, given the least base. -/
theorem applyStrideReq_spec (reqs : List DimStrideReq) (ind : Nat) {base : Int}
    (nonneg : 0 ≤ base) :
    0 ≤ applyStrideReq base (kindFor reqs ind) ∧
      ((∃ fixedValue, kindFor reqs ind = some (.Fixed fixedValue)) ∨
        base ≤ applyStrideReq base (kindFor reqs ind)) ∧
      (kindFor reqs ind).all (satisfies base (applyStrideReq base (kindFor reqs ind))) ∧
      ∀ larger stride, base ≤ larger → (kindFor reqs ind).all (satisfies larger stride) →
        (∃ fixedValue, kindFor reqs ind = some (.Fixed fixedValue)) ∨ larger ≤ stride →
          applyStrideReq base (kindFor reqs ind) ≤ stride := by
  cases found : kindFor reqs ind with
  | none =>
    exact ⟨nonneg, .inr le_rfl, rfl, fun larger stride less _ whole =>
      less.trans (whole.resolve_left (by simp))⟩
  | some kind =>
    have verified := verified_of_kindFor found
    cases kind with
    | Compact =>
      exact ⟨nonneg, .inr le_rfl, decide_eq_true rfl, fun larger stride less satisfied _ =>
        less.trans_eq (of_decide_eq_true satisfied).symm⟩
    | Aligned alignment =>
      obtain ⟨exponent, rfl⟩ := verified
      have pos : (0 : Int) < 2 ^ exponent := pow_pos two_pos exponent
      obtain ⟨divides, le, close⟩ := Signed.alignValUp_bounds nonneg pos
      refine ⟨nonneg.trans le, .inr le, decide_eq_true (Int.tmod_eq_zero_of_dvd divides),
        fun larger stride less satisfied whole => ?_⟩
      obtain ⟨times, isStride⟩ := Int.dvd_of_tmod_eq_zero (of_decide_eq_true satisfied)
      obtain ⟨timesLeast, isLeast⟩ := divides
      have near := whole.resolve_left (by simp)
      rw [applyStrideReq, isStride, isLeast]
      have next : 2 ^ exponent * timesLeast < 2 ^ exponent * (times + 1) := by linarith
      exact mul_le_mul_of_nonneg_left
        (Int.lt_add_one_iff.mp (lt_of_mul_lt_mul_left next pos.le)) pos.le
    | Fixed fixedValue =>
      exact ⟨verified.le, .inl ⟨fixedValue, rfl⟩, decide_eq_true rfl,
        fun larger stride _ satisfied _ => (of_decide_eq_true satisfied).symm.le⟩

section

variable (elemSize_pos : 0 < elemSize)

include elemSize_pos

theorem baseStride_nonneg (pos : ∀ extent ∈ memShape, 0 < extent)
    (nonneg : ∀ stride ∈ memStrides, 0 ≤ stride) : 0 ≤ baseStride elemSize memStrides memShape := by
  unfold baseStride
  split
  · exact mul_nonneg (nonneg _ mem_cons_self) (pos _ mem_cons_self).le
  · exact elemSize_pos.le

theorem leastStride_le_baseStride (memStrides memShape : List Int) :
    leastStride elemSize memStrides memShape ≤ baseStride elemSize memStrides memShape := by
  unfold leastStride baseStride
  split
  · exact sub_le_self _ elemSize_pos.le
  · exact le_rfl

theorem calcStrides_whole (reqs : List DimStrideReq) (ind : Nat)
    (pos : ∀ extent ∈ memShape, 0 < extent) :
    (∀ stride ∈ calcStrides reqs elemSize ind memShape, 0 ≤ stride) ∧
      WithoutTolerance reqs elemSize ind (calcStrides reqs elemSize ind memShape) memShape := by
  induction memShape generalizing ind with
  | nil => exact ⟨forall_mem_nil _, trivial⟩
  | cons extent memShape ih =>
    rw [forall_mem_cons] at pos
    obtain ⟨nonneg, whole⟩ := ih (ind + 1) pos.2
    obtain ⟨here, room, -⟩ :=
      applyStrideReq_spec reqs ind (baseStride_nonneg elemSize_pos pos.2 nonneg)
    exact ⟨forall_mem_cons.mpr ⟨here, nonneg⟩, room, whole⟩

theorem calcStrides_least (pos : ∀ extent ∈ memShape, 0 < extent) {ind : Nat}
    (checked : checkStrides reqs elemSize ind memStrides memShape)
    (room : WithoutTolerance reqs elemSize ind memStrides memShape) :
    List.Forall₂ (· ≤ ·) (calcStrides reqs elemSize ind memShape) memStrides ∧
      checkStrides reqs elemSize ind (calcStrides reqs elemSize ind memShape) memShape := by
  induction memStrides generalizing ind memShape with
  | nil =>
    cases memShape with
    | nil => exact ⟨.nil, rfl⟩
    | cons extent memShape => cases checked
  | cons stride memStrides ih =>
    cases memShape with
    | nil => cases checked
    | cons extent memShape =>
      rw [forall_mem_cons] at pos
      rw [checkStrides, Bool.and_eq_true, Bool.and_eq_true, decide_eq_true_eq] at checked
      obtain ⟨⟨enough, satisfied⟩, rest⟩ := checked
      obtain ⟨below, right⟩ := ih pos.2 rest room.2
      obtain ⟨baseLess, leastLess⟩ := strides_mono elemSize below pos.2
      have nonneg := baseStride_nonneg elemSize_pos pos.2
        (calcStrides_whole elemSize_pos reqs (ind + 1) pos.2).1
      obtain ⟨-, whole, fits, least⟩ := applyStrideReq_spec reqs ind nonneg
      refine ⟨.cons (least _ _ baseLess satisfied room.1) below, ?_⟩
      rw [calcStrides, checkStrides, Bool.and_eq_true, Bool.and_eq_true, decide_eq_true_eq]
      refine ⟨⟨?_, fits⟩, right⟩
      rcases whole with ⟨fixedValue, isFixed⟩ | whole
      · rw [isFixed] at satisfied ⊢
        exact leastLess.trans (enough.trans_eq (of_decide_eq_true satisfied))
      · exact (leastStride_le_baseStride elemSize_pos _ _).trans whole

end

/-! ### Joining -/

/-- The joined list has a requirement for each dimension at most, holds only together with both
lists, and gives strides that are right for both and do not depend on the order. -/
def RightJoin (cur other : List DimStrideReq) (elemSize : Int) (memShape : List Int) : Prop :=
  ∃ merged, join cur other elemSize memShape = .ok merged ∧
    (memDims merged).Nodup ∧
    (∀ memStrides, checkStrides merged elemSize 0 memStrides memShape →
      checkStrides cur elemSize 0 memStrides memShape ∧
        checkStrides other elemSize 0 memStrides memShape) ∧
    checkStrides cur elemSize 0 (calcStrides merged elemSize 0 memShape) memShape ∧
    checkStrides other elemSize 0 (calcStrides merged elemSize 0 memShape) memShape ∧
    ∃ swapped, join other cur elemSize memShape = .ok swapped ∧
      calcStrides swapped elemSize 0 memShape = calcStrides merged elemSize 0 memShape

theorem rightJoin_iff (curNodup : (memDims cur).Nodup) (otherNodup : (memDims other).Nodup)
    (elemSize_pos : 0 < elemSize) (pos : ∀ extent ∈ memShape, 0 < extent) :
    RightJoin cur other elemSize memShape ↔ Separate cur other ∧
      ∃ memStrides, checkStrides cur elemSize 0 memStrides memShape ∧
        checkStrides other elemSize 0 memStrides memShape ∧
        WithoutTolerance (cur ++ other) elemSize 0 memStrides memShape := by
  constructor
  · rintro ⟨merged, joined, nodup, -, forCur, forOther, -⟩
    have separate := separate_of_join joined nodup
    rw [separate.join_eq] at joined
    split at joined
    · cases joined
      exact ⟨separate, _, forCur, forOther, (calcStrides_whole elemSize_pos _ 0 pos).2⟩
    · cases joined
  · rintro ⟨separate, memStrides, forCur, forOther, room⟩
    have both : checkStrides (cur ++ other) elemSize 0 memStrides memShape := by
      rw [separate.checkStrides_append, forCur, forOther]
      rfl
    have right := (calcStrides_least elemSize_pos pos both room).2
    have split := right
    rw [separate.checkStrides_append, Bool.and_eq_true] at split
    refine ⟨cur ++ other, separate.join_eq.trans (if_pos right), ?_, fun other => ?_, split.1,
      split.2, other ++ cur, ?_, separate.symm.calcStrides_comm 0⟩
    · rw [memDims_append]
      exact curNodup.append otherNodup separate
    · rw [separate.checkStrides_append, Bool.and_eq_true]
      exact id
    · rw [separate.symm.join_eq, separate.symm.calcStrides_comm, separate.symm.checkStrides_append,
        split.1, split.2]
      rfl

def compact (memDim : Nat) : DimStrideReq := ⟨memDim, .Compact, trivial⟩

theorem compact_rightJoin : RightJoin [compact 1] [compact 0] 8 [2, 3] :=
  (rightJoin_iff (by decide) (by decide) (by decide) (by decide)).mpr
    ⟨by simp [Separate, compact, memDims], [24, 8], by decide, by decide, .inr (by decide),
      .inr (by decide), trivial⟩

/-- Strides that are compact in both lists are joined with two requirements. -/
theorem compact_not_rightJoin : checkStrides [compact 0] 8 0 [8] [2] ∧
    ¬ RightJoin [compact 0] [compact 0] 8 [2] :=
  ⟨by decide, fun ⟨_, joined, nodup, _⟩ =>
    separate_of_join joined nodup mem_cons_self mem_cons_self⟩

end NpuPlugin.StrideReqs
