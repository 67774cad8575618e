/-
This file proves that a permutation with fewer and larger dimensions moves a buffer in the same way:
dimensions of size one are dropped, and dimensions that stay adjacent are merged.
-/

import NpuPlugin.ConstTransformations.Content

namespace NpuPlugin.PermuteUtils

open ConstTransformations KeyedAxes List Nat

/-! ### The functions -/

/-- There is no result when the permutation is not compatible with the shape. -/
def isTrivialPermute (inShape : List Nat) (memPerm : DimsOrder) : Option Bool :=
  if inShape.length ≠ memPerm.numDims then none
  else
    let nonTrivialPerm := memPerm.dims.filter fun inDim => inShape.getD inDim 0 ≠ 1
    some (nonTrivialPerm.isEmpty || (List.range' 1 (nonTrivialPerm.length - 1)).all fun ind =>
      ¬ nonTrivialPerm.getD ind 0 < nonTrivialPerm.getD (ind - 1) 0)

/-- Normalize permutation vector. Example: [1, 3, 7, 6] -> [0, 1, 3, 2] -/
def normalizePermutation (vec : List Nat) : List Nat :=
  let sorted := vec.insertionSort (· ≤ ·)
  vec.map sorted.idxOf

/-- The loops over the dimensions, in a run that starts with `first` and ends with `last`. The key
of a run is its first dimension, and with it stands the size. -/
def mergeRuns (shapeVec : List Nat) (rank : Int) (first last dimSize : Nat) (remainingRank : Int) :
    List Nat → List (Nat × Nat)
  | [] => [(first, dimSize)]
  | next :: rest =>
    if last + 1 = next ∧ ¬ remainingRank < rank then
      mergeRuns shapeVec rank first next (dimSize * shapeVec.getD next 0) (remainingRank - 1) rest
    else
      (first, dimSize) ::
        mergeRuns shapeVec rank next next (shapeVec.getD next 0) remainingRank rest

/-- The dimensions that are adjacent before and after the permutation, merged. -/
def mergeDims (shapeVec : List Nat) (rank : Int) : List Nat → List (Nat × Nat)
  | [] => []
  | first :: rest =>
    mergeRuns shapeVec rank first first (shapeVec.getD first 0) (rest.length + 1) rest

def getMergedPermutationAndShape (memShape : List Nat) (permutation : DimsOrder) (rank : Int) :
    List Nat × List Nat :=
  -- Dims with size 1 are dropped
  let permVec := normalizePermutation (permutation.dims.filter fun dim => memShape.getD dim 0 ≠ 1)
  let shapeVec := memShape.filter fun dimSize => dimSize ≠ 1
  if (shapeVec.length : Int) < rank then (permVec, shapeVec)
  else
    -- Merge dims that are adjacent before and after permutation
    let merged := mergeDims shapeVec rank permVec
    -- Keys iterated in ascending order
    let mergedShapeMap := merged.insertionSort fun one other => one.1 ≤ other.1
    (normalizePermutation (merged.map Prod.fst), mergedShapeMap.map Prod.snd)

def extendPermutationAndShape (permutation shape : List Nat) (targetRank : Int) :
    List Nat × List Nat :=
  let padSize := targetRank - permutation.length
  if targetRank = 4 ∧ shape.length = 2 then ([0, 3, 2, 1], [1, shape.getD 0 0, 1, shape.getD 1 0])
  else if 0 < padSize then
    ((List.range targetRank.toNat).map fun i =>
        if i < padSize.toNat then i else permutation.getD (i - padSize.toNat) 0 + padSize.toNat,
      (List.range targetRank.toNat).map fun i =>
        if i < padSize.toNat then 1 else shape.getD (i - padSize.toNat) 0)
  else (permutation, shape)

/-! ### Runs -/

def toAxis (entry : Nat × Nat) : Axis := ⟨entry.1, entry.2⟩

section Runs

variable {shapeVec : List Nat} {rank : Int} {first last : Nat} {rest : List Nat}

/-- The dimensions of a run have been used up. -/
structure Run (done : List Axis) (first last : Nat) (rest : List Nat) : Prop where
  ordered : first ≤ last
  used : ∀ key ∈ rest, ¬ (first ≤ key ∧ key ≤ last)
  distinct : rest.Nodup
  usedBefore : ∀ axis ∈ done, ¬ (first ≤ axis.key ∧ axis.key ≤ last)
  apart : ∀ axis ∈ done, axis.key ∉ rest

theorem Run.extend {done : List Axis} (run : Run done first last ((last + 1) :: rest)) :
    Run done first (last + 1) rest := by
  obtain ⟨absent, distinct⟩ := nodup_cons.mp run.distinct
  refine ⟨run.ordered.trans (le_succ _), fun key mem inside => ?_, distinct,
    fun axis mem inside => ?_, fun axis mem later => ?_⟩
  · have used := run.used key (mem_cons_of_mem _ mem)
    have same : key = last + 1 := by omega
    exact absent (same ▸ mem)
  · have used := run.usedBefore axis mem
    have same : axis.key = last + 1 := by omega
    exact run.apart axis mem (same ▸ mem_cons_self)
  · exact run.apart axis mem (mem_cons_of_mem _ later)

theorem Run.next {done : List Axis} {next : Nat} (run : Run done first last (next :: rest))
    (dimSize : Nat) : Run (done ++ [⟨first, dimSize⟩]) next next rest := by
  obtain ⟨absent, distinct⟩ := nodup_cons.mp run.distinct
  have ordered := run.ordered
  refine ⟨le_rfl, fun key mem inside => ?_, distinct, fun axis mem inside => ?_,
    fun axis mem later => ?_⟩
  · have same : key = next := by omega
    exact absent (same ▸ mem)
  · have same : axis.key = next := by omega
    rcases mem_append.mp mem with before | isFirst
    · exact run.apart axis before (same ▸ mem_cons_self)
    · rw [mem_singleton.mp isFirst] at same
      exact run.used next mem_cons_self (by dsimp only at same; omega)
  · rcases mem_append.mp mem with before | isFirst
    · exact run.apart axis before (mem_cons_of_mem _ later)
    · rw [mem_singleton.mp isFirst] at later
      exact run.used first (mem_cons_of_mem _ later) ⟨le_rfl, ordered⟩

theorem moved_mergeRuns {done : List Axis} (run : Run done first last rest) (dimSize : Nat)
    (remainingRank : Int) :
    moved (done ++ (mergeRuns shapeVec rank first last dimSize remainingRank rest).map toAxis) =
      moved (done ++ ⟨first, dimSize⟩ :: axesOf shapeVec rest) := by
  induction rest generalizing done first last dimSize remainingRank with
  | nil => rfl
  | cons next rest ih =>
    unfold mergeRuns
    split
    · rename_i merges
      obtain rfl := merges.1
      have ordered := run.ordered
      rw [ih run.extend]
      refine (@moved_merge done (axesOf shapeVec rest) ⟨first, dimSize⟩
        ⟨last + 1, shapeVec.getD (last + 1) 0⟩ (lt_succ_of_le ordered)
        fun axis mem => ?_).symm
      rcases mem_append.mp mem with before | later
      · exact run.extend.usedBefore axis before
      · obtain ⟨key, keyMember, rfl⟩ := mem_map.mp later
        exact run.extend.used key keyMember
    · have continued := @ih next next (done ++ [⟨first, dimSize⟩])
        (run.next dimSize) (shapeVec.getD next 0) remainingRank
      rw [append_assoc, append_assoc] at continued
      exact continued

/-- A run begins with its first dimension, and the dimensions keep their order. -/
theorem mergeRuns_keys (dimSize : Nat) (remainingRank : Int) :
    ∃ keys, (mergeRuns shapeVec rank first last dimSize remainingRank rest).map Prod.fst =
      first :: keys ∧ keys.Sublist rest := by
  induction rest generalizing first last dimSize remainingRank with
  | nil => exact ⟨[], rfl, List.Sublist.refl _⟩
  | cons next rest ih =>
    unfold mergeRuns
    split
    · obtain ⟨keys, same, sublist⟩ := @ih first next
        (dimSize * shapeVec.getD next 0) (remainingRank - 1)
      exact ⟨keys, same, sublist.cons _⟩
    · obtain ⟨keys, same, sublist⟩ := @ih next next
        (shapeVec.getD next 0) remainingRank
      exact ⟨next :: keys, congrArg (first :: ·) same, sublist.cons_cons _⟩

theorem ascends_of_mergeRuns (run : Run [] first last rest) (dimSize : Nat) (remainingRank : Int)
    (ascends : ((mergeRuns shapeVec rank first last dimSize remainingRank rest).map
      Prod.fst).Pairwise (· < ·)) : (last :: rest).Pairwise (· < ·) := by
  induction rest generalizing first last dimSize remainingRank with
  | nil => exact pairwise_singleton _ _
  | cons next rest ih =>
    have later : last < next → (next :: rest).Pairwise (· < ·) →
        (last :: next :: rest).Pairwise (· < ·) := fun before sorted => by
      refine pairwise_cons.mpr ⟨fun key mem => ?_, sorted⟩
      rcases mem_cons.mp mem with same | inRest
      · exact same ▸ before
      · exact before.trans ((pairwise_cons.mp sorted).1 key inRest)
    unfold mergeRuns at ascends
    split at ascends
    · rename_i merges
      obtain rfl := merges.1
      exact later (lt_succ_self last) (ih run.extend _ _ ascends)
    · obtain ⟨keys, same, -⟩ := @mergeRuns_keys shapeVec rank next next rest
        (shapeVec.getD next 0) remainingRank
      rw [map_cons, same] at ascends
      obtain ⟨behind, sorted⟩ := pairwise_cons.mp ascends
      have before := behind next mem_cons_self
      have used := run.used next mem_cons_self
      rw [← same] at sorted
      refine later (by omega) (ih ?_ _ _ sorted)
      have apart := run.next 0
      exact ⟨apart.ordered, apart.used, apart.distinct, nofun, nofun⟩

theorem mergeDims_spec (shapeVec : List Nat) (rank : Int) {order : List Nat}
    (distinct : order.Nodup) :
    ((mergeDims shapeVec rank order).map Prod.fst).Nodup ∧
      moved ((mergeDims shapeVec rank order).map toAxis) = moved (axesOf shapeVec order) ∧
      (((mergeDims shapeVec rank order).map Prod.fst).Pairwise (· < ·) →
        order.Pairwise (· < ·)) := by
  cases order with
  | nil => exact ⟨nodup_nil, rfl, fun ascends => ascends⟩
  | cons first rest =>
    obtain ⟨absent, restDistinct⟩ := nodup_cons.mp distinct
    have run : Run [] first first rest :=
      ⟨le_rfl, fun key mem inside => absent (le_antisymm inside.1 inside.2 ▸ mem),
        restDistinct, nofun, nofun⟩
    obtain ⟨keys, same, sublist⟩ := @mergeRuns_keys shapeVec rank first first rest
      (shapeVec.getD first 0) (rest.length + 1)
    refine ⟨?_, moved_mergeRuns run _ _, ascends_of_mergeRuns run _ _⟩
    rw [mergeDims, same]
    exact (sublist.cons_cons first).nodup distinct

end Runs

/-! ### Keys and sizes -/

section Entries

variable {entries : List (Nat × Nat)}

/-- The size that stands with a key. -/
def sizeOf (entries : List (Nat × Nat)) (key : Nat) : Nat :=
  ((entries.find? fun entry => entry.1 = key).map Prod.snd).getD 0

section

variable (distinct : (entries.map Prod.fst).Nodup)
include distinct

theorem sizeOf_eq {entry : Nat × Nat} (mem : entry ∈ entries) :
    sizeOf entries entry.1 = entry.2 := by
  unfold sizeOf
  cases found : entries.find? fun other => decide (other.1 = entry.1) with
  | none => exact absurd (find?_eq_none.mp found entry mem) (by simp)
  | some other =>
    have sameKey : other.1 = entry.1 := by simpa using find?_some found
    have same := inj_on_of_nodup_map distinct (mem_of_find?_eq_some found) mem sameKey
    rw [same]
    rfl

theorem sizes_eq :
    (entries.insertionSort fun one other => one.1 ≤ other.1).map Prod.snd =
      (ascending (entries.map Prod.fst)).map (sizeOf entries) := by
  have perm := perm_insertionSort (fun one other : Nat × Nat => one.1 ≤ other.1) entries
  have keys : (entries.insertionSort fun one other => one.1 ≤ other.1).map Prod.fst =
      ascending (entries.map Prod.fst) :=
    map_insertionSort _ _ Prod.fst entries fun _ _ _ _ => Iff.rfl
  rw [← keys, map_map]
  refine map_congr_left fun entry mem => ?_
  exact (sizeOf_eq distinct (perm.mem_iff.mp mem)).symm

theorem moved_entries :
    moved (axesOf ((entries.insertionSort fun one other => one.1 ≤ other.1).map Prod.snd)
      (normalizePermutation (entries.map Prod.fst))) = moved (entries.map toAxis) := by
  rw [sizes_eq distinct]
  refine (moved_rankOf distinct (sizeOf entries)).trans (congrArg moved ?_)
  rw [map_map]
  refine map_congr_left fun entry mem => ?_
  exact congrArg (Axis.mk entry.1) (sizeOf_eq distinct mem)

end

end Entries

/-! ### Rearrangements -/

/-- A permutation of a shape. -/
def Permutes (shape order : List Nat) : Prop := order.Perm (List.range shape.length)

section Merged

variable {memShape : List Nat} {perm : DimsOrder}

/-- The dimensions that are not dropped, in the order of the permutation. -/
def keptDims (memShape : List Nat) (perm : DimsOrder) : List Nat :=
  perm.dims.filter fun dim => memShape.getD dim 0 ≠ 1

theorem keptDims_nodup : (keptDims memShape perm).Nodup :=
  (perm.isPermutation.nodup_iff.mpr nodup_range).filter _

section

variable (compatible : memShape.length = perm.numDims)
include compatible

theorem keptSizes_eq :
    (memShape.filter fun dimSize => dimSize ≠ 1) =
      (ascending (keptDims memShape perm)).map fun dim => memShape.getD dim 0 := by
  have whole : (range memShape.length).map (fun dim => memShape.getD dim 0) = memShape := by
    refine ext_getElem (by simp) fun dim _ inside => ?_
    simp [getD_eq_getElem?_getD, inside]
  have kept : ((range memShape.length).filter fun dim => memShape.getD dim 0 ≠ 1) =
      ascending (keptDims memShape perm) := by
    refine eq_ascending ?_ (pairwise_lt_range.filter _)
    rw [compatible]
    exact (perm.isPermutation.filter _).symm
  rw [← kept]
  conv_lhs => rw [← whole, filter_map]
  rfl

/-- What is left after dropping is walked like the whole. -/
theorem moved_kept :
    moved (axesOf (memShape.filter fun dimSize => dimSize ≠ 1)
      (normalizePermutation (keptDims memShape perm))) = moved (axesOf memShape perm.dims) := by
  rw [keptSizes_eq compatible]
  refine (moved_rankOf keptDims_nodup fun dim => memShape.getD dim 0).trans ?_
  rw [← moved_filter (axesOf memShape perm.dims), axesOf, filter_map]
  rfl

theorem permutes_kept :
    Permutes (memShape.filter fun dimSize => dimSize ≠ 1)
      (normalizePermutation (keptDims memShape perm)) := by
  rw [Permutes, keptSizes_eq compatible, length_map, (ascending_perm _).length_eq]
  exact map_rankOf_perm keptDims_nodup

end

theorem ascends_normalized {keys : List Nat} (distinct : keys.Nodup)
    (ascends : (normalizePermutation keys).Pairwise (· < ·)) : keys.Pairwise (· < ·) := by
  have ranked : (keys.map (rankOf keys)).Pairwise (· < ·) := ascends
  refine (pairwise_map.mp ranked).imp_of_mem fun firstMember secondMember less => ?_
  exact (rankOf_lt_iff distinct firstMember secondMember).mp less

variable (memShape perm) in
/-- A shape with a permutation moves the buffer like the original one, and the permutation is
trivial only if the original one is. -/
structure Merges (merged : List Nat × List Nat) : Prop where
  permutes : Permutes merged.2 merged.1
  moves : moved (axesOf merged.2 merged.1) = moved (axesOf memShape perm.dims)
  trivial : merged.1.Pairwise (· < ·) → (keptDims memShape perm).Pairwise (· < ·)

theorem getMergedPermutationAndShape_merges (compatible : memShape.length = perm.numDims)
    (rank : Int) : Merges memShape perm (getMergedPermutationAndShape memShape perm rank) := by
  have permutes := permutes_kept compatible
  have kept := moved_kept compatible
  have distinct : (normalizePermutation (keptDims memShape perm)).Nodup :=
    permutes.nodup_iff.mpr nodup_range
  have trivial : (normalizePermutation (keptDims memShape perm)).Pairwise (· < ·) →
    (keptDims memShape perm).Pairwise (· < ·) := ascends_normalized keptDims_nodup
  unfold getMergedPermutationAndShape
  dsimp only
  split
  · exact ⟨permutes, kept, trivial⟩
  · obtain ⟨entriesDistinct, merged, ascends⟩ :=
      mergeDims_spec (memShape.filter fun dimSize => dimSize ≠ 1) rank distinct
    refine ⟨?_, (moved_entries entriesDistinct).trans (merged.trans kept), fun sorted =>
      trivial (ascends (ascends_normalized entriesDistinct sorted))⟩
    have order := map_rankOf_perm entriesDistinct
    rw [length_map, ← length_insertionSort (fun one other : Nat × Nat => one.1 ≤ other.1),
      ← length_map] at order
    exact order

end Merged

section Extended

variable {memShape shape order : List Nat} {perm : DimsOrder}

theorem isTrivialPermute_false (nontrivial : isTrivialPermute memShape perm = some false) :
    memShape.length = perm.numDims ∧ ¬ (keptDims memShape perm).Pairwise (· < ·) := by
  unfold isTrivialPermute at nontrivial
  split at nontrivial
  · cases nontrivial
  · rename_i compatible
    refine ⟨not_not.mp compatible, fun ascends => ?_⟩
    have descends := (Bool.or_eq_false_iff.mp (Option.some.inj nontrivial)).2
    obtain ⟨ind, mem, less⟩ := all_eq_false.mp descends
    obtain ⟨after, before⟩ := mem_range'_1.mp mem
    have later : ind < (keptDims memShape perm).length := by
      unfold keptDims
      omega
    have earlier : ind - 1 < (keptDims memShape perm).length := by omega
    have sorted := pairwise_iff_getElem.mp ascends _ _ earlier later (by omega)
    have swapped := not_not.mp fun apart => less (decide_eq_true apart)
    rw [getD_eq_getElem?_getD, getD_eq_getElem?_getD] at swapped
    change (keptDims memShape perm)[ind]?.getD 0 < (keptDims memShape perm)[ind - 1]?.getD 0
      at swapped
    rw [getElem?_eq_getElem later, getElem?_eq_getElem earlier] at swapped
    exact absurd swapped sorted.not_gt

theorem moved_padded (permutes : Permutes shape order) (padSize : Nat) :
    Permutes (List.replicate padSize 1 ++ shape) (List.range padSize ++ order.map (· + padSize)) ∧
      moved (axesOf (List.replicate padSize 1 ++ shape)
        (List.range padSize ++ order.map (· + padSize))) = moved (axesOf shape order) := by
  constructor
  · rw [Permutes, length_append, length_replicate, range_add]
    refine List.Perm.append_left _ ?_
    have shifted := permutes.map (· + padSize)
    simp only [add_comm _ padSize] at shifted ⊢
    exact shifted
  · have ones : ∀ (pads : List Nat) (axes : List Axis), (∀ pad ∈ pads, pad < padSize) →
        moved (axesOf (replicate padSize 1 ++ shape) pads ++ axes) = moved axes := by
      intro pads axes small
      induction pads with
      | nil => rfl
      | cons pad pads ih =>
        have one : (replicate padSize 1 ++ shape).getD pad 0 = 1 := by
          have inside := small pad mem_cons_self
          simp [getD_eq_getElem?_getD, getElem?_append_left, inside]
        rw [axesOf, map_cons, one, cons_append]
        exact (moved_one [] _ pad).trans
          (ih (forall_mem_cons.mp small).2)
    have shifted : axesOf (replicate padSize 1 ++ shape) (order.map (· + padSize)) =
        (axesOf shape order).map fun axis => ⟨axis.key + padSize, axis.extent⟩ := by
      rw [axesOf, axesOf, map_map, map_map]
      refine map_congr_left fun dim _ => ?_
      simp [getD_eq_getElem?_getD, getElem?_append_right]
    rw [axesOf, map_append]
    refine (ones _ _ fun pad mem => mem_range.mp mem).trans ?_
    rw [← axesOf, shifted]
    exact @moved_rekey (axesOf shape order) (· + padSize)
      fun first _ second _ => Nat.add_lt_add_iff_right

theorem moved_pair (first second : Nat) :
    moved (axesOf [1, first, 1, second] [0, 3, 2, 1]) = moved (axesOf [first, second] [1, 0]) := by
  have kept : moved (axesOf [1, first, 1, second] [0, 3, 2, 1]) = moved [⟨3, second⟩, ⟨1, first⟩] :=
    (moved_one [] [⟨3, second⟩, ⟨2, 1⟩, ⟨1, first⟩] 0).trans
      (moved_one [⟨3, second⟩] [⟨1, first⟩] 2)
  exact kept.trans (@moved_rekey [⟨1, second⟩, ⟨0, first⟩] (fun key => 2 * key + 1)
    fun one _ other _ => by omega)

theorem pair_of_permutes {first second : Nat} (permutes : Permutes [first, second] order) :
    order = [0, 1] ∨ order = [1, 0] := by
  have length : order.length = 2 := permutes.length_eq
  obtain ⟨front, back, rfl⟩ := length_eq_two.mp length
  have distinct := permutes.nodup_iff.mpr nodup_range
  have frontLess := mem_range.mp (permutes.mem_iff.mp (mem_cons_self (a := front)))
  have backLess := mem_range.mp (permutes.mem_iff.mp
    (mem_cons_of_mem front (mem_cons_self (a := back))))
  simp only [length_cons, length_nil] at frontLess backLess
  simp only [nodup_cons, mem_singleton] at distinct
  have cases : front = 0 ∧ back = 1 ∨ front = 1 ∧ back = 0 := by omega
  rcases cases with ⟨rfl, rfl⟩ | ⟨rfl, rfl⟩
  · exact .inl rfl
  · exact .inr rfl

theorem map_range_padded (pad change : Nat → Nat) (values : List Nat) (padSize : Nat) :
    ((List.range (padSize + values.length)).map fun i =>
        if i < padSize then pad i else change (values.getD (i - padSize) 0)) =
      (List.range padSize).map pad ++ values.map change := by
  rw [range_add, map_append, map_map]
  refine congrArg₂ (· ++ ·) (map_congr_left fun i mem => ?_) ?_
  · rw [if_pos (mem_range.mp mem)]
  · refine ext_getElem (by simp) fun i _ inside => ?_
    rw [length_map] at inside
    simp [getD_eq_getElem?_getD, inside]

theorem extendPermutationAndShape_moves {merged : List Nat × List Nat}
    (merges : Merges memShape perm merged)
    (nontrivial : ¬ (keptDims memShape perm).Pairwise (· < ·)) (targetRank : Int) :
    Permutes (extendPermutationAndShape merged.1 merged.2 targetRank).2
        (extendPermutationAndShape merged.1 merged.2 targetRank).1 ∧
      moved (axesOf (extendPermutationAndShape merged.1 merged.2 targetRank).2
        (extendPermutationAndShape merged.1 merged.2 targetRank).1) =
          moved (axesOf memShape perm.dims) := by
  obtain ⟨order, shape⟩ := merged
  obtain ⟨permutes, moves, trivial⟩ := merges
  unfold extendPermutationAndShape
  dsimp only at permutes moves trivial ⊢
  split
  · rename_i pair
    obtain ⟨first, second, rfl⟩ := length_eq_two.mp pair.2
    rcases pair_of_permutes permutes with rfl | rfl
    · exact absurd (trivial (by decide)) nontrivial
    · refine ⟨?_, (moved_pair first second).trans moves⟩
      show [0, 3, 2, 1].Perm (range 4)
      decide
  · split
    · rename_i pads
      have length : order.length = shape.length := permutes.length_eq.trans length_range
      generalize padSize : (targetRank - order.length).toNat = size
      have counted : targetRank.toNat = size + order.length := by omega
      have orders := map_range_padded id (· + size) order size
      have shapes := map_range_padded (fun _ => 1) id shape size
      rw [map_id] at orders
      rw [map_id, map_const', length_range] at shapes
      obtain ⟨padded, same⟩ := moved_padded permutes size
      rw [counted]
      refine orders ▸ ?_
      rw [length]
      refine shapes ▸ ?_
      exact ⟨padded, same.trans moves⟩
    · exact ⟨permutes, moves⟩

end Extended

/-- A shape with a permutation of it moves every buffer like another one. -/
structure MovesLike (memShape : List Nat) (perm : DimsOrder) (res : List Nat × List Nat) :
    Prop where
  permutes : Permutes res.2 res.1
  sources : sources res.2 res.1 = sources memShape perm.dims

/-- The merged shape and permutation of a permutation that is not trivial move the buffer like the
original ones, and so does their extension. -/
theorem getMergedPermutationAndShape_movesLike {memShape : List Nat} {perm : DimsOrder}
    (nontrivial : isTrivialPermute memShape perm = some false) (rank targetRank : Int) :
    MovesLike memShape perm (getMergedPermutationAndShape memShape perm rank) ∧
      MovesLike memShape perm (extendPermutationAndShape
        (getMergedPermutationAndShape memShape perm rank).1
        (getMergedPermutationAndShape memShape perm rank).2 targetRank) := by
  obtain ⟨compatible, descends⟩ := isTrivialPermute_false nontrivial
  have merges := getMergedPermutationAndShape_merges compatible rank
  obtain ⟨permutes, moves⟩ := extendPermutationAndShape_moves merges descends targetRank
  have isOrder : perm.dims.Perm (range memShape.length) := by
    rw [compatible]
    exact perm.isPermutation
  refine ⟨⟨merges.permutes, ?_⟩, permutes, ?_⟩
  · rw [sources_eq_moved merges.permutes, sources_eq_moved isOrder, merges.moves]
  · rw [sources_eq_moved permutes, sources_eq_moved isOrder, moves]

/-- The second and the third of five dimensions are merged with the fourth. -/
theorem getMergedPermutationAndShape_movesLike_five :
    MovesLike [2, 4, 1, 3, 5] ⟨[0, 4, 1, 2, 3], by decide⟩ ([0, 2, 1], [2, 12, 5]) ∧
      MovesLike [2, 4, 1, 3, 5] ⟨[0, 4, 1, 2, 3], by decide⟩ ([0, 1, 3, 2], [1, 2, 12, 5]) :=
  getMergedPermutationAndShape_movesLike (by decide) 4 4

end NpuPlugin.PermuteUtils
