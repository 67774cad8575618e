/-
This file models which output axis a reshape gives to the distributed axis, and proves when slices
of the two axes hold the same data.
-/

import Mathlib.Algebra.Order.BigOperators.GroupWithZero.List
import NpuPlugin.ConstTransformations.Transpose

namespace NpuPlugin.AxesMapping

open ConstTransformations List MixedRadix Nat

/-! ### The functions -/

/-- The candidates with the dimensions so far and one or more of the next ones. -/
def candidatesFrom (targetDimSize : Nat) : Nat → List Nat → Nat → List Nat → List (List Nat)
  | _, _, _, [] => []
  | accumulateSize, currMemDims, beginIdx, dim :: rest =>
    let size := accumulateSize * dim
    let memDims := currMemDims ++ [beginIdx]
    (if size = targetDimSize then [memDims] else []) ++
      if size > targetDimSize then []
      else candidatesFrom targetDimSize size memDims (beginIdx + 1) rest

def getOutMemDimsCandidates (inMemShape outMemShape : List Nat) (inMemDim : Nat) :
    List (List Nat) :=
  (List.range outMemShape.length).flatMap fun dimIdx =>
    candidatesFrom (inMemShape.getD inMemDim 0) 1 [] dimIdx (outMemShape.drop dimIdx)

def getAccumulateSize (memShape : List Nat) (beginIdx endIdx : Nat) : Nat :=
  ((memShape.take endIdx).drop beginIdx).prod

def deduceLegalOutputMemDims (inMemShape outMemShape : List Nat) (inMemDim : Nat) :
    Option (List Nat) :=
  (getOutMemDimsCandidates inMemShape outMemShape inMemDim).find? fun outMemDims =>
    getAccumulateSize inMemShape 0 inMemDim =
        getAccumulateSize outMemShape 0 (outMemDims.headD 0) &&
      getAccumulateSize inMemShape (inMemDim + 1) inMemShape.length =
        getAccumulateSize outMemShape (outMemDims.getLastD 0 + 1) outMemShape.length

/-- The only axis with more than one tile, or -1. -/
def getSpecificAxisFromAttr : Option (List Int) → Int
  | none => -1
  | some axisVec =>
    if axisVec.countP (1 < ·) ≠ 1 then -1
    else axisVec.findIdx fun elem => axisVec.all (· ≤ elem)

/-- A type, with its shape in memory. -/
structure BufferType where
  memShape : List Nat
  order : DimsOrder
  rank : memShape.length = order.numDims

def getDistributedAxesMappingAfterShapeChanged (reshapeInType : BufferType)
    (reshapeOutType : Option BufferType) (numTiles alignment : Option (List Int)) :
    Option (Int × Int) := do
  let outType ← reshapeOutType
  let numTilesAxis := getSpecificAxisFromAttr numTiles
  let alignmentAxis := getSpecificAxisFromAttr alignment
  if numTilesAxis ≠ -1 ∧ alignmentAxis ≠ -1 ∧ numTilesAxis ≠ alignmentAxis then none
  else
    let inAxis := if numTilesAxis = -1 then alignmentAxis else numTilesAxis
    if inAxis = -1 then some (numTilesAxis, alignmentAxis)
    else do
      let inMemDim := reshapeInType.order.dimPos inAxis.toNat
      let outMemDims ← deduceLegalOutputMemDims reshapeInType.memShape outType.memShape inMemDim
      some (inAxis, outType.order.dimAt (outMemDims.getLastD 0))

/-! ### Slices -/

/-- The positions in memory of a slice of a dimension. -/
def Occupies (shape : List Nat) (dim offset size position : Nat) : Prop :=
  ∃ index, Inside shape index ∧ (offset ≤ index.getD dim 0 ∧ index.getD dim 0 < offset + size) ∧
    flatten shape index = position

/-- Slices of the axes are the same data. -/
structure KeepsData (inType outType : BufferType) (inAxis outAxis : Nat) : Prop where
  extent : outType.memShape.getD (outType.order.dimPos outAxis) 0 =
    inType.memShape.getD (inType.order.dimPos inAxis) 0
  slices : ∀ offset size position,
    Occupies inType.memShape (inType.order.dimPos inAxis) offset size position ↔
      Occupies outType.memShape (outType.order.dimPos outAxis) offset size position

section

variable {shape index : List Nat} {dim : Nat}

theorem prod_take_getD (inside : dim < shape.length) :
    (shape.take dim).prod * shape.getD dim 0 = (shape.take (dim + 1)).prod := by
  rw [prod_take_succ _ _ inside, getD_eq_getElem _ _ inside]

theorem take_mul_getD_mul_drop (inside : dim < shape.length) :
    (shape.take dim).prod * shape.getD dim 0 * (shape.drop (dim + 1)).prod = shape.prod := by
  rw [prod_take_getD inside, prod_take_mul_prod_drop]

theorem flatten_div_mod (inShape : Inside shape index) (inside : dim < shape.length) :
    flatten shape index / (shape.drop (dim + 1)).prod % shape.getD dim 0 = index.getD dim 0 := by
  induction shape generalizing index dim with
  | nil => cases inside
  | cons extent rest ih =>
    cases index with
    | nil => cases inShape
    | cons position positions =>
      obtain ⟨less, others⟩ := inShape
      have below := flatten_lt others
      have pos : 0 < rest.prod := zero_lt_of_lt below
      have split : flatten (extent :: rest) (position :: positions) =
          position * rest.prod + flatten rest positions := rfl
      cases dim with
      | zero =>
        rw [split, drop_one, tail_cons, getD_cons_zero, getD_cons_zero, Nat.mul_comm,
          mul_add_div pos, Nat.div_eq_of_lt below, add_zero, mod_eq_of_lt less]
      | succ dim =>
        have within : dim < rest.length := lt_of_succ_lt_succ inside
        have whole := take_mul_getD_mul_drop within
        have behind : 0 < (rest.drop (dim + 1)).prod := Nat.pos_of_mul_pos_left (whole ▸ pos)
        rw [split, drop_succ_cons, getD_cons_succ, getD_cons_succ, ← ih others within, ← whole,
          ← mul_assoc, add_comm, add_mul_div_right _ _ behind, ← mul_assoc, add_mul_mod_self_right]

theorem occupies_iff (inside : dim < shape.length) {offset size position : Nat} :
    Occupies shape dim offset size position ↔ position < shape.prod ∧
      offset ≤ position / (shape.drop (dim + 1)).prod % shape.getD dim 0 ∧
        position / (shape.drop (dim + 1)).prod % shape.getD dim 0 < offset + size := by
  constructor
  · rintro ⟨index, inShape, slice, rfl⟩
    rw [flatten_div_mod inShape inside]
    exact ⟨flatten_lt inShape, slice⟩
  · rintro ⟨less, slice⟩
    obtain ⟨index, inShape, rfl⟩ := exists_flatten less
    rw [flatten_div_mod inShape inside] at slice
    exact ⟨index, inShape, slice, rfl⟩

end

/-! ### The run that is found -/

/-- The found candidate is the shortest legal one with its first dimension. -/
theorem find?_candidatesFrom {targetDimSize accumulateSize beginIdx : Nat}
    {currMemDims rest found : List Nat} {legal : List Nat → Bool}
    (res : (candidatesFrom targetDimSize accumulateSize currMemDims beginIdx rest).find? legal =
      some found) :
    ∃ more < rest.length, found = currMemDims ++ range' beginIdx (more + 1) ∧
      accumulateSize * (rest.take (more + 1)).prod = targetDimSize ∧
      ∀ less < more, accumulateSize * (rest.take (less + 1)).prod = targetDimSize →
        ¬ legal (currMemDims ++ range' beginIdx (less + 1)) := by
  induction rest generalizing accumulateSize beginIdx currMemDims with
  | nil => cases res
  | cons dim rest ih =>
    rw [candidatesFrom, find?_append, Option.or_eq_some_iff] at res
    rcases res with whole | ⟨refused, later⟩
    · split at whole
      · next equal =>
        exact ⟨0, succ_pos _, mem_singleton.mp (mem_of_find?_eq_some whole), by simpa using equal,
          fun _ before => absurd before (not_lt_zero _)⟩
      · cases whole
    · split at later
      · cases later
      · obtain ⟨more, inside, same, product, first⟩ := ih later
        refine ⟨more + 1, succ_lt_succ inside, ?_, ?_, fun less before => ?_⟩
        · rw [same, append_assoc, singleton_append, ← range'_succ]
        · rwa [take_succ_cons, prod_cons, ← mul_assoc]
        · cases less with
          | zero =>
            intro equal
            rw [if_pos (by simpa using equal)] at refused
            simpa using refused
          | succ less =>
            have refusal := first less (lt_of_succ_lt_succ before)
            rwa [append_assoc, singleton_append, ← range'_succ, mul_assoc, ← prod_cons,
              ← take_succ_cons] at refusal

/-- Output dimensions of the size of an input dimension, between as many elements. -/
structure LegalRun (inMemShape outMemShape : List Nat) (inMemDim first last : Nat) : Prop where
  ordered : first ≤ last
  inside : last < outMemShape.length
  left : (inMemShape.take inMemDim).prod = (outMemShape.take first).prod
  through : (inMemShape.take (inMemDim + 1)).prod = (outMemShape.take (last + 1)).prod
  right : (inMemShape.drop (inMemDim + 1)).prod = (outMemShape.drop (last + 1)).prod

variable {inMemShape outMemShape : List Nat} {inMemDim first last : Nat}

section

variable {shape : List Nat} (positive : ∀ extent ∈ shape, 0 < extent)
include positive

theorem prod_take_pos (count : Nat) : 0 < (shape.take count).prod :=
  prod_pos fun extent mem => positive extent (mem_of_mem_take mem)

theorem prod_take_le {few many : Nat} (less : few ≤ many) :
    (shape.take few).prod ≤ (shape.take many).prod := by
  have same : (shape.take many).take few = shape.take few := by rw [take_take, min_eq_left less]
  have parts := prod_take_mul_prod_drop (shape.take many) few
  rw [same] at parts
  exact parts ▸ Nat.le_mul_of_pos_right _
    (Nat.pos_of_mul_pos_left (parts ▸ prod_take_pos positive _))

end

theorem deduceLegalOutputMemDims_spec {outMemDims : List Nat}
    (inside : inMemDim < inMemShape.length) (positive : ∀ extent ∈ outMemShape, 0 < extent)
    (res : deduceLegalOutputMemDims inMemShape outMemShape inMemDim = some outMemDims) :
    ∃ first, LegalRun inMemShape outMemShape inMemDim first (outMemDims.getLastD 0) ∧
      ∀ last < outMemDims.getLastD 0, ¬ LegalRun inMemShape outMemShape inMemDim first last := by
  unfold deduceLegalOutputMemDims getOutMemDimsCandidates at res
  rw [find?_flatMap] at res
  obtain ⟨first, -, found⟩ := exists_of_findSome?_eq_some res
  obtain ⟨more, within, rfl, product, shortest⟩ := find?_candidatesFrom found
  have legal := find?_some found
  have ends (more : Nat) : ([] ++ range' first (more + 1)).getLastD 0 = first + more := by
    rw [nil_append, range'_concat, getLastD_concat, one_mul]
  have starts (more : Nat) : ([] ++ range' first (more + 1)).headD 0 = first := rfl
  have through (more : Nat) : (outMemShape.take (first + more + 1)).prod =
      (outMemShape.take first).prod * (1 * ((outMemShape.drop first).take (more + 1)).prod) := by
    rw [add_assoc, take_add, prod_append, one_mul]
  simp only [getAccumulateSize, Bool.and_eq_true, decide_eq_true_eq, drop_zero, take_length, ends,
    starts] at legal shortest
  rw [ends]
  refine ⟨first, ⟨le_add_right _ _, ?_, legal.1, ?_, legal.2⟩, fun last before other => ?_⟩
  · rw [length_drop] at within
    omega
  · rw [through, product, ← legal.1, prod_take_getD inside]
  · obtain ⟨less, rfl⟩ := Nat.exists_eq_add_of_le other.ordered
    refine shortest less (Nat.lt_of_add_lt_add_left before) ?_ ⟨other.left, other.right⟩
    have same := other.through
    rw [through, ← prod_take_getD inside, other.left] at same
    exact (Nat.eq_of_mul_eq_mul_left (prod_take_pos positive first) same).symm

theorem LegalRun.last_iff (legal : LegalRun inMemShape outMemShape inMemDim first last)
    (shortest : ∀ earlier < last, ¬ LegalRun inMemShape outMemShape inMemDim first earlier)
    (inside : inMemDim < inMemShape.length) (positive : ∀ extent ∈ outMemShape, 0 < extent) :
    outMemShape.getD last 0 = inMemShape.getD inMemDim 0 ↔
      ∃ dim, LegalRun inMemShape outMemShape inMemDim dim dim := by
  have through := legal.through
  rw [← prod_take_getD inside, ← prod_take_getD legal.inside] at through
  have pos := prod_take_pos positive
  have some {dim : Nat} (within : dim < outMemShape.length) : 0 < outMemShape.getD dim 0 :=
    Nat.pos_of_mul_pos_left (prod_take_getD within ▸ pos (dim + 1))
  constructor
  · intro same
    rw [← same] at through
    exact ⟨last, le_rfl, legal.inside, Nat.eq_of_mul_eq_mul_right (some legal.inside) through,
      legal.through, legal.right⟩
  · rintro ⟨dim, one⟩
    have same := one.through
    rw [← prod_take_getD inside, ← prod_take_getD one.inside, one.left] at same
    replace same := Nat.eq_of_mul_eq_mul_left (pos dim) same
    -- Otherwise the dimensions have extent one
    have unit (most : (inMemShape.take (inMemDim + 1)).prod ≤ (inMemShape.take inMemDim).prod) :
        outMemShape.getD last 0 = inMemShape.getD inMemDim 0 := by
      have whole := legal.left ▸ prod_take_le positive legal.ordered
      rw [← prod_take_getD inside] at most
      have outOne := Nat.le_of_mul_le_mul_left (through ▸ (most.trans (whole.trans_eq
        (mul_one _).symm))) (pos last)
      have inOne := Nat.le_of_mul_le_mul_left (most.trans_eq (mul_one _).symm)
        (one.left ▸ pos dim)
      exact (le_antisymm outOne (some legal.inside)).trans
        (le_antisymm inOne (same ▸ some one.inside)).symm
    rcases lt_trichotomy last dim with before | rfl | behind
    · exact unit (legal.through ▸ one.left ▸ prod_take_le positive before)
    · exact same.symm
    · by_cases ordered : first ≤ dim
      · exact absurd ⟨ordered, one.inside, legal.left, one.through, one.right⟩ (shortest dim behind)
      · exact unit (one.through ▸ legal.left ▸ prod_take_le positive (not_le.mp ordered))

/-! ### Data that is kept -/

variable {inType outType : BufferType} {inAxis outAxis : Int}
  {numTiles alignment : Option (List Int)}

theorem mapped_spec (isAxis : 0 ≤ inAxis)
    (mapped : getDistributedAxesMappingAfterShapeChanged inType (some outType) numTiles alignment =
      some (inAxis, outAxis)) :
    ∃ outMemDims, deduceLegalOutputMemDims inType.memShape outType.memShape
      (inType.order.dimPos inAxis.toNat) = some outMemDims ∧
        (outType.order.dimAt (outMemDims.getLastD 0) : Int) = outAxis := by
  unfold getDistributedAxesMappingAfterShapeChanged at mapped
  rw [Option.bind_eq_bind, Option.bind_some] at mapped
  dsimp only at mapped
  split at mapped
  · cases mapped
  · generalize getSpecificAxisFromAttr numTiles = tiles, getSpecificAxisFromAttr alignment = aligned
      at mapped
    generalize chosen : (if tiles = -1 then aligned else tiles) = axis at mapped
    split at mapped
    · next none =>
      obtain ⟨isTiles, -⟩ := Prod.mk.inj (Option.some.inj mapped)
      split at chosen
      · next noTiles =>
        rw [noTiles] at isTiles
        omega
      · omega
    · obtain ⟨outMemDims, res, same⟩ := Option.bind_eq_some_iff.mp mapped
      obtain ⟨rfl, isOut⟩ := Prod.mk.inj (Option.some.inj same)
      exact ⟨outMemDims, res, isOut⟩

/-- The distributed axis is mapped to an axis with the same data when an output dimension has the
extent of the distributed one, with as many elements before and behind it. -/
theorem keepsData_iff (positive : ∀ extent ∈ outType.memShape, 0 < extent)
    (count : inType.memShape.prod = outType.memShape.prod) (isAxis : 0 ≤ inAxis)
    (distributed : inAxis.toNat < inType.order.numDims)
    (mapped : getDistributedAxesMappingAfterShapeChanged inType (some outType) numTiles alignment =
      some (inAxis, outAxis)) :
    KeepsData inType outType inAxis.toNat outAxis.toNat ↔ ∃ dim,
      LegalRun inType.memShape outType.memShape (inType.order.dimPos inAxis.toNat) dim dim := by
  have inside : inType.order.dimPos inAxis.toNat < inType.memShape.length :=
    inType.rank ▸ DimsOrder.dimPos_less distributed
  obtain ⟨outMemDims, res, rfl⟩ := mapped_spec isAxis mapped
  obtain ⟨first, legal, shortest⟩ := deduceLegalOutputMemDims_spec inside positive res
  have back : outType.order.dimPos (outType.order.dimAt (outMemDims.getLastD 0)) =
      outMemDims.getLastD 0 := DimsOrder.dimPos_dimAt (outType.rank ▸ legal.inside)
  rw [← legal.last_iff shortest inside positive]
  constructor
  · intro keeps
    have extent := keeps.extent
    rwa [Int.toNat_natCast, back] at extent
  · intro same
    refine ⟨by rwa [Int.toNat_natCast, back], fun offset size position => ?_⟩
    rw [Int.toNat_natCast, back, occupies_iff inside, occupies_iff legal.inside, same, count,
      legal.right]

/-- The 16 channels of a tensor become two dimensions of another one. -/
def channels : BufferType := ⟨[1, 16, 4, 4], .NCHW, rfl⟩

def splitChannels : BufferType := ⟨[1, 4, 4, 16], .NCHW, rfl⟩

theorem channels_mapped : getDistributedAxesMappingAfterShapeChanged channels (some splitChannels)
    (some [1, 4, 1, 1]) none = some (1, 2) := by
  decide

theorem keepsData_iff_channels : KeepsData channels splitChannels 1 2 ↔ ∃ dim,
    LegalRun channels.memShape splitChannels.memShape (channels.order.dimPos 1) dim dim :=
  @keepsData_iff channels splitChannels 1 2 _ _ (by decide) rfl (by decide) (by decide)
    channels_mapped

theorem splitChannels_lost : getDistributedAxesMappingAfterShapeChanged channels
    (some splitChannels) (some [1, 4, 1, 1]) none = some (1, 2) ∧
      ¬ KeepsData channels splitChannels 1 2 :=
  ⟨channels_mapped, fun keeps => absurd keeps.extent (by decide)⟩

end NpuPlugin.AxesMapping
