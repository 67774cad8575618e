/-
This file is about the padding that is given to the first and to the last cluster, which is what the
clusters need only as long as no other one reads the padding and the last one reads all of it.
-/

import NpuPlugin.Distribution.Overlapped

namespace NpuPlugin.Distribution

open List Option Run Spans Tiling

def getPerClusterPadding (distribution : DistributedTensor) (kernelPadding : PadInfo) :
    Except DistributionFailure (List PadInfo) :=
  if distribution.distributionMode ≠ .OVERLAPPED then .error .unsupportedDistribution
  else
    let axisDim := getDistributedTilingAxis distribution.numTiles
    if ¬ (axisDim = 2 ∨ axisDim = 3) then .error (.notSpatial axisDim)
    else
      let { left, right, top, bottom } := kernelPadding
      let firstClusterPadInfo : PadInfo :=
        if axisDim = 2 then ⟨left, right, top, 0⟩ else ⟨left, 0, top, bottom⟩
      let lastClusterPadInfo : PadInfo :=
        if axisDim = 2 then ⟨left, right, 0, bottom⟩ else ⟨0, right, top, bottom⟩
      let padInfo : PadInfo := if axisDim = 2 then ⟨left, right, 0, 0⟩ else ⟨0, 0, top, bottom⟩
      .ok (firstClusterPadInfo :: List.replicate (distribution.numClusters - 2).toNat padInfo ++
        [lastClusterPadInfo])

def alongAxis (axis : Nat) (pads : PadInfo) : Int × Int :=
  if axis = 2 then (pads.top, pads.bottom) else (pads.left, pads.right)

namespace Overlapping

variable (layout : Overlapping)

/-- The outputs are cut into one part for each cluster, and each cluster has the pads that its part
is inferred to need. -/
def PaddingAgrees : Prop :=
  ∃ pads tiles, getPerClusterPadding layout.distribution layout.layer.pads = .ok pads ∧
    splitSegmentedShape layout.outputShape layout.numTiles layout.numClusters layout.axis none
      layout.uniformDistributedSegments = .ok (some tiles) ∧
    (pads.length : Int) = layout.numClusters ∧
    ∀ (cluster : Nat) span, (place 0 (extentsAlong layout.axis tiles))[cluster]? = some span →
      ∃ pad input, pads[cluster]? = some pad ∧
        inputTileDimRange layout.shape layout.layer.kernel layout.layer.strides layout.layer.pads
          layout.axis (share span) = .ok (input, alongAxis layout.axis pad)

/-- The number of outputs of the last cluster. -/
def lastOutputs : Int :=
  if layout.uniformDistributedSegments then layout.window.outputs / layout.numClusters
  else layout.window.outputs -
    divUp layout.window.outputs layout.numClusters * (layout.numClusters - 1)

/-- The second cluster begins behind the padding, the last but one ends in front of it, and the last
one reads all of it. -/
structure PaddingFits : Prop where
  second : layout.window.padBefore ≤
    divUp layout.window.outputs layout.numClusters * layout.window.stride
  lastButOne : (layout.window.outputs - layout.lastOutputs - 1) * layout.window.stride +
    layout.window.kernel - layout.window.padBefore ≤ layout.window.extent
  last : layout.window.padAfter = 0 ∨ layout.window.stride ∣
    layout.window.extent - layout.window.kernel + layout.window.padBefore + layout.window.padAfter

end Overlapping

/-! ### The parts of the clusters -/

def segmentExtents (extent numClusters : Int) (uniformDistributedSegments : Bool) : List Int :=
  if uniformDistributedSegments then
    List.replicate (extent % numClusters).toNat (extent / numClusters + 1) ++
      List.replicate (numClusters - extent % numClusters).toNat (extent / numClusters)
  else List.replicate (numClusters - 1).toNat (divUp extent numClusters) ++
    List.replicate 1 (extent - divUp extent numClusters * (numClusters - 1))

variable {shape : Shape} {axis : Nat} {tilingScheme : List Int} {numClusters : Int}
  {uniformDistributedSegments : Bool}

section

variable (inside : axis < shape.length)
include inside

theorem splitUniformly_unaligned (nonneg : 0 ≤ shape.getD axis 0) (clusters : 0 < numClusters)
    (enough : numClusters ≤ shape.getD axis 0) :
    splitUniformly shape numClusters axis none =
      .ok (some (List.replicate (shape.getD axis 0 % numClusters).toNat
          (shape.set axis (shape.getD axis 0 / numClusters + 1)) ++
        List.replicate (numClusters - shape.getD axis 0 % numClusters).toNat
          (shape.set axis (shape.getD axis 0 / numClusters)))) := by
  have positive : 1 ≤ shape.getD axis 0 / numClusters :=
    (Int.le_ediv_iff_mul_le clusters).mpr (by rw [one_mul]; exact enough)
  have rest : shape.getD axis 0 - shape.getD axis 0 / numClusters * numClusters =
      shape.getD axis 0 % numClusters := by
    rw [mul_comm, Int.emod_def]
  have restNonneg := Int.emod_nonneg (shape.getD axis 0) clusters.ne'
  have restLt := Int.emod_lt_of_pos (shape.getD axis 0) clusters
  have tiled : (shape.set axis ((shape.getD axis 0).tdiv numClusters)).getD axis 0 =
      shape.getD axis 0 / numClusters := by
    rw [getD_set_self inside, Int.tdiv_eq_ediv_of_nonneg nonneg]
  refine (ok_bind rfl _).trans ?_
  rw [tiled, if_neg (by omega)]
  dsimp only [axisAlignmentAt]
  rw [if_neg one_ne_zero, Int.tmod_one, if_neg (not_not.mpr rfl), Int.tdiv_one, rest]
  refine (ok_bind (insertCopies_ok [] restNonneg _) _).trans
    ((ok_bind (insertCopies_ok _ (by omega) _) _).trans ?_)
  rw [Int.tdiv_eq_ediv_of_nonneg nonneg, set_set, nil_append]
  rfl

theorem splitEqually_unaligned (clusters : 0 < numClusters)
    (enough : divUp (shape.getD axis 0) numClusters * (numClusters - 1) < shape.getD axis 0) :
    splitEqually shape numClusters axis none =
      .ok (some (List.replicate (numClusters - 1).toNat
          (shape.set axis (divUp (shape.getD axis 0) numClusters)) ++
        List.replicate 1 (shape.set axis (shape.getD axis 0 -
          divUp (shape.getD axis 0) numClusters * (numClusters - 1))))) := by
  refine (ok_bind rfl _).trans ?_
  rw [getD_set_self inside, if_neg (by omega)]
  exact ok_bind (insertCopies_ok [] (by omega) _) _

theorem splitSegmentedShape_unaligned (scheme : tilingScheme[axis]? = some numClusters)
    (nonneg : 0 ≤ shape.getD axis 0) (clusters : 0 < numClusters)
    (splittable : Splittable (shape.getD axis 0) numClusters 1 uniformDistributedSegments) :
    ∃ tiles, splitSegmentedShape shape tilingScheme numClusters axis none
        uniformDistributedSegments = .ok (some tiles) ∧
      extentsAlong axis tiles =
        segmentExtents (shape.getD axis 0) numClusters uniformDistributedSegments := by
  unfold splitSegmentedShape
  rw [if_neg inside.not_ge, if_neg (not_not.mpr scheme), if_neg clusters.ne']
  cases uniformDistributedSegments with
  | true =>
    have enough : numClusters ≤ shape.getD axis 0 := (one_mul numClusters) ▸ splittable.1
    refine ⟨_, (if_pos rfl).trans (splitUniformly_unaligned inside nonneg clusters enough), ?_⟩
    rw [extentsAlong_two, getD_set_self inside, getD_set_self inside]
    rfl
  | false =>
    have enough : divUp (shape.getD axis 0) numClusters * (numClusters - 1) < shape.getD axis 0 :=
      (alignValUp_one (divUp (shape.getD axis 0) numClusters)) ▸ splittable
    refine ⟨_, (if_neg Bool.false_ne_true).trans
      (splitEqually_unaligned inside clusters enough), ?_⟩
    rw [extentsAlong_two, getD_set_self inside, getD_set_self inside]
    rfl

end

theorem divUp_eq {extent : Int} (nonneg : 0 ≤ extent) (clusters : 0 < numClusters) :
    divUp extent numClusters =
      if extent % numClusters = 0 then extent / numClusters else extent / numClusters + 1 := by
  obtain ⟨above, below⟩ := divUp_bounds nonneg clusters
  have whole := Int.mul_ediv_add_emod extent numClusters
  have restNonneg := Int.emod_nonneg extent clusters.ne'
  have restLt := Int.emod_lt_of_pos extent clusters
  have reaches : extent / numClusters ≤ divUp extent numClusters := by
    refine le_of_mul_le_mul_right ?_ clusters
    rw [mul_comm (extent / numClusters)]
    omega
  split
  · rename_i divides
    have small : divUp extent numClusters < extent / numClusters + 1 := by
      refine lt_of_mul_lt_mul_right ?_ clusters.le
      rw [add_mul, one_mul, mul_comm (extent / numClusters)]
      omega
    omega
  · rename_i remains
    have large : extent / numClusters < divUp extent numClusters := by
      refine lt_of_mul_lt_mul_right ?_ clusters.le
      rw [mul_comm (extent / numClusters)]
      omega
    have small : divUp extent numClusters < extent / numClusters + 2 := by
      refine lt_of_mul_lt_mul_right ?_ clusters.le
      rw [add_mul, mul_comm (extent / numClusters)]
      omega
    omega

theorem segmentExtents_first {extent : Int} (nonneg : 0 ≤ extent) (clusters : 1 < numClusters)
    (uniformDistributedSegments : Bool) :
    ∃ rest, segmentExtents extent numClusters uniformDistributedSegments =
      divUp extent numClusters :: rest := by
  have ofReplicate : ∀ {count : Nat} (value : Int) (back : List Int), 0 < count →
      ∃ rest, replicate count value ++ back = value :: rest := by
    intro count value back some
    obtain ⟨others, rfl⟩ := Nat.exists_eq_succ_of_ne_zero some.ne'
    exact ⟨_, congrArg (· ++ back) replicate_succ⟩
  unfold segmentExtents
  cases uniformDistributedSegments with
  | false => exact ofReplicate _ _ (by omega)
  | true =>
    rw [if_pos rfl, divUp_eq nonneg (Int.one_pos.trans clusters)]
    split
    · rename_i divides
      rw [divides, Int.toNat_zero, replicate_zero, nil_append,
        ← append_nil (replicate (numClusters - 0).toNat _)]
      exact ofReplicate _ _ (by omega)
    · have restNonneg := Int.emod_nonneg extent (Int.one_pos.trans clusters).ne'
      exact ofReplicate _ _ (by omega)

theorem segmentExtents_last (extent : Int) (clusters : 1 < numClusters)
    (uniformDistributedSegments : Bool) :
    ∃ front, segmentExtents extent numClusters uniformDistributedSegments = front ++
      [if uniformDistributedSegments then extent / numClusters
        else extent - divUp extent numClusters * (numClusters - 1)] := by
  unfold segmentExtents
  cases uniformDistributedSegments with
  | false => exact ⟨_, rfl⟩
  | true =>
    have restLt := Int.emod_lt_of_pos extent (Int.one_pos.trans clusters)
    obtain ⟨others, count⟩ :=
      Nat.exists_eq_succ_of_ne_zero (n := (numClusters - extent % numClusters).toNat) (by omega)
    rw [if_pos rfl, if_pos rfl, count, replicate_succ', ← append_assoc]
    exact ⟨_, rfl⟩

/-! ### The pads of the clusters -/

variable {layout : Overlapping}

theorem getElem?_between {Value : Type} (first middle last : Value) (count : Nat) {place : Nat}
    (inside : place < count + 2) :
    (first :: List.replicate count middle ++ [last])[place]? =
      some (if place = 0 then first else if place = count + 1 then last else middle) := by
  cases place with
  | zero => rfl
  | succ place =>
    rw [cons_append, getElem?_cons_succ, if_neg (Nat.succ_ne_zero place)]
    by_cases end_ : place = count
    · rw [if_pos (congrArg Nat.succ end_), getElem?_append_right (by
        rw [length_replicate, end_]), length_replicate, end_, Nat.sub_self]
      rfl
    · rw [if_neg fun same => end_ (Nat.succ_inj.mp same),
        getElem?_append_left (by rw [length_replicate]; omega),
        getElem?_replicate, if_pos (by omega)]

theorem getPerClusterPadding_ok (verified : layout.Verified) :
    ∃ pads, getPerClusterPadding layout.distribution layout.layer.pads = .ok pads ∧
      (pads.length : Int) = layout.numClusters ∧
      ∀ cluster : Nat, (cluster : Int) < layout.numClusters → ∃ pad, pads[cluster]? = some pad ∧
        alongAxis layout.axis pad = (if cluster = 0 then layout.window.padBefore else 0,
          if (cluster : Int) + 1 = layout.numClusters then layout.window.padAfter else 0) := by
  have clusters := verified.clusters
  have axis : getDistributedTilingAxis layout.distribution.numTiles = layout.axis := rfl
  have count : layout.distribution.numClusters = layout.numClusters := rfl
  unfold getPerClusterPadding
  dsimp only
  rw [axis, if_neg (not_not.mpr verified.planar), count]
  refine ⟨_, rfl, ?_, fun cluster inside => ⟨_, getElem?_between _ _ _ _ (by omega), ?_⟩⟩
  · rw [length_append, length_cons, length_replicate, length_singleton]
    omega
  · have last : cluster = (layout.numClusters - 2).toNat + 1 ↔
        (cluster : Int) + 1 = layout.numClusters := by omega
    unfold alongAxis Overlapping.window Layer.pads
    rw [if_congr last rfl rfl]
    by_cases isFirst : cluster = 0
    · have notLast : ¬ (cluster : Int) + 1 = layout.numClusters := by omega
      rw [if_pos isFirst, if_pos isFirst, if_neg notLast]
      by_cases vertical : layout.axis = 2 <;> simp only [vertical, if_true, if_false]
    · by_cases isLast : (cluster : Int) + 1 = layout.numClusters <;>
        by_cases vertical : layout.axis = 2 <;>
        simp only [vertical, isFirst, isLast, if_true, if_false]

/-! ### The pads that the parts need -/

def Overlapping.parts (layout : Overlapping) : List Span :=
  place 0 (segmentExtents layout.window.outputs layout.numClusters
    layout.uniformDistributedSegments)

/-- A cluster needs the padding in front only if it is the first one, and the padding behind only if
it is the last one. -/
structure Overlapping.Needs (layout : Overlapping) (cluster : Nat) (span : Span) : Prop where
  before : layout.window.before (share span) = if cluster = 0 then layout.window.padBefore else 0
  after : layout.window.after (share span) =
    if (cluster : Int) + 1 = layout.numClusters then layout.window.padAfter else 0

theorem exists_parts (verified : layout.Verified) (shareable : layout.Shareable) :
    Extents layout.window.outputs layout.numClusters 1 (segmentExtents layout.window.outputs
        layout.numClusters layout.uniformDistributedSegments) ∧
      ∃ tiles, splitSegmentedShape layout.outputShape layout.numTiles layout.numClusters
          layout.axis none layout.uniformDistributedSegments = .ok (some tiles) ∧
        place 0 (extentsAlong layout.axis tiles) = layout.parts := by
  have outputs := verified.outputs_eq
  have nonneg : 0 ≤ layout.outputShape.getD layout.axis 0 := by
    rw [outputs]
    unfold Overlapping.window
    split
    · exact shareable.height.le
    · exact shareable.width.le
  have clusters := Int.one_pos.trans verified.clusters
  have splittable := shareable.splittable
  rw [← outputs] at splittable
  obtain ⟨tiles, res, extents⟩ :=
    splitSegmentedShape_unaligned verified.axis_lt verified.scheme nonneg clusters splittable
  rcases @splitSegmentedShape_into layout.outputShape none layout.axis layout.numTiles
      layout.numClusters layout.uniformDistributedSegments verified.axis_lt verified.scheme trivial
      (show (1 : Int) < 2 ^ 31 by decide) nonneg clusters with ⟨whole, -⟩ | ⟨-, others, same, of⟩
  · exact absurd splittable whole
  · rw [res] at same
    cases same
    rw [extents, outputs] at of
    refine ⟨of, tiles, res, ?_⟩
    rw [extents, outputs]
    rfl

theorem fits_of_parts (verified : layout.Verified)
    (of : Extents layout.window.outputs layout.numClusters 1 (segmentExtents layout.window.outputs
      layout.numClusters layout.uniformDistributedSegments)) : layout.window.Fits :=
  fits_of_two verified.wellFormed verified.extent_pos
    (verified.clusters.trans_le (le_of_extents of))

theorem paddingAgrees_iff_needs (verified : layout.Verified) (shareable : layout.Shareable) :
    layout.PaddingAgrees ↔ ∀ (cluster : Nat) span, layout.parts[cluster]? = some span →
      layout.Needs cluster span := by
  obtain ⟨of, tiles, res, parts⟩ := exists_parts verified shareable
  obtain ⟨pads, given, length, each⟩ := getPerClusterPadding_ok verified
  have fits := fits_of_parts verified of
  have inferred : ∀ {cluster : Nat} {span}, layout.parts[cluster]? = some span →
      (cluster : Int) < layout.numClusters ∧
        inputTileDimRange layout.shape layout.layer.kernel layout.layer.strides layout.layer.pads
          layout.axis (share span) = .ok (layout.window.input (share span),
            layout.window.before (share span), layout.window.after (share span)) := by
    intro cluster span found
    have inside := (List.getElem?_eq_some_iff.mp found).1
    rw [Overlapping.parts, length_place] at inside
    exact ⟨by have := of.length; omega, inputTileDimRange_eq verified fits
      (has_share of (mem_of_getElem? found))⟩
  constructor
  · rintro ⟨otherPads, otherTiles, otherGiven, otherResult, -, agrees⟩ cluster span found
    rw [given] at otherGiven
    rw [res] at otherResult
    cases otherGiven
    cases otherResult
    rw [← parts] at found
    obtain ⟨pad, input, padFound, ran⟩ := agrees cluster span found
    rw [parts] at found
    obtain ⟨inside, needed⟩ := inferred found
    obtain ⟨other, otherFound, along⟩ := each cluster inside
    rw [padFound] at otherFound
    cases otherFound
    rw [needed, along] at ran
    injection ran with same
    injection same with _ same
    injection same with before after
    exact ⟨before, after⟩
  · intro needs
    refine ⟨pads, tiles, given, res, length, fun cluster span found => ?_⟩
    rw [parts] at found
    obtain ⟨inside, needed⟩ := inferred found
    obtain ⟨pad, padFound, along⟩ := each cluster inside
    refine ⟨pad, layout.window.input (share span), padFound, needed.trans ?_⟩
    rw [along, (needs cluster span found).before, (needs cluster span found).after]

theorem after_last_iff {window : Window} (wellFormed : window.WellFormed) (fits : window.Fits)
    (start : Int) : window.after ⟨start, window.outputs⟩ = window.padAfter ↔
      window.padAfter = 0 ∨ window.stride ∣
        window.extent - window.kernel + window.padBefore + window.padAfter := by
  have room := fits.kernel_le
  have nonneg := wellFormed.padAfter_nonneg
  have split := Int.mul_ediv_add_emod
    (window.extent - window.kernel + window.padBefore + window.padAfter) window.stride
  have restNonneg := Int.emod_nonneg
    (window.extent - window.kernel + window.padBefore + window.padAfter) wellFormed.stride_pos.ne'
  have reach : (window.outputs - 1) * window.stride =
      window.extent - window.kernel + window.padBefore + window.padAfter -
        (window.extent - window.kernel + window.padBefore + window.padAfter) % window.stride := by
    unfold Window.outputs outputExtent
    rw [Int.tdiv_eq_ediv_of_nonneg (by omega), add_sub_cancel_right, mul_comm]
    omega
  rw [Int.dvd_iff_emod_eq_zero]
  unfold Window.after
  rw [reach]
  generalize (window.extent - window.kernel + window.padBefore + window.padAfter) %
    window.stride = rest at *
  omega

/-- No part but the first one begins before the second one, and no part but the last one ends behind
the last but one. -/
structure Overlapping.Parted (layout : Overlapping) : Prop where
  length : (layout.parts.length : Int) = layout.numClusters
  positive : ∀ span ∈ layout.parts, 0 < span.extent
  first : ∀ span, layout.parts[0]? = some span → span.offset = 0
  second : ∃ span, layout.parts[1]? = some span ∧
    span.offset = divUp layout.window.outputs layout.numClusters
  later : ∀ cluster span, cluster ≠ 0 → layout.parts[cluster]? = some span →
    divUp layout.window.outputs layout.numClusters ≤ span.offset
  last : ∀ (cluster : Nat) span, (cluster : Int) + 1 = layout.numClusters →
    layout.parts[cluster]? = some span → span.offset + span.extent = layout.window.outputs
  lastButOne : ∃ (cluster : Nat) (span : Span), (cluster : Int) + 2 = layout.numClusters ∧
    layout.parts[cluster]? = some span ∧
    span.offset + span.extent = layout.window.outputs - layout.lastOutputs
  earlier : ∀ (cluster : Nat) span, (cluster : Int) + 1 ≠ layout.numClusters →
    layout.parts[cluster]? = some span →
    span.offset + span.extent ≤ layout.window.outputs - layout.lastOutputs

section

variable (verified : layout.Verified) (shareable : layout.Shareable)
include verified shareable

theorem parts_from_first :
    ∃ rest, layout.parts = ⟨0, divUp layout.window.outputs layout.numClusters⟩ :: rest ∧
      Consecutive (divUp layout.window.outputs layout.numClusters) rest layout.window.outputs := by
  obtain ⟨of, -⟩ := exists_parts verified shareable
  have nonneg : 0 ≤ layout.window.outputs := (le_of_extents of).trans' (by
    have := verified.clusters
    omega)
  obtain ⟨rest, split⟩ :=
    segmentExtents_first nonneg verified.clusters layout.uniformDistributedSegments
  have positive := of.positive
  have sum := of.sum
  rw [split] at positive sum
  have consecutive := place_consecutive (divUp layout.window.outputs layout.numClusters)
    (forall_mem_cons.mp positive).2
  rw [← sum_cons, sum] at consecutive
  refine ⟨_, ?_, consecutive⟩
  rw [Overlapping.parts, split, place, zero_add]

theorem parts_to_last :
    ∃ front, layout.parts =
        front ++ [⟨layout.window.outputs - layout.lastOutputs, layout.lastOutputs⟩] ∧
      Consecutive 0 front (layout.window.outputs - layout.lastOutputs) := by
  obtain ⟨of, -⟩ := exists_parts verified shareable
  obtain ⟨front, split⟩ := segmentExtents_last layout.window.outputs verified.clusters
    layout.uniformDistributedSegments
  have positive := of.positive
  have sum := of.sum
  rw [split] at positive sum
  have before : front.sum = layout.window.outputs - layout.lastOutputs := by
    rw [sum_append, sum_singleton] at sum
    exact eq_sub_of_add_eq sum
  have consecutive := place_consecutive 0
    (forall_mem_append.mp positive).1
  rw [before, zero_add] at consecutive
  refine ⟨_, ?_, consecutive⟩
  rw [Overlapping.parts, split, place_append, before, zero_add]
  rfl

theorem parted : layout.Parted := by
  obtain ⟨of, -⟩ := exists_parts verified shareable
  have clusters := verified.clusters
  have length : (layout.parts.length : Int) = layout.numClusters := by
    rw [Overlapping.parts, length_place, of.length]
  obtain ⟨rest, fromFirst, later⟩ := parts_from_first verified shareable
  obtain ⟨front, toLast, earlier⟩ := parts_to_last verified shareable
  have frontLength : (front.length : Int) + 1 = layout.numClusters := by
    rw [toLast, length_append, length_singleton] at length
    exact length
  refine ⟨length, fun span mem => ?_, fun span found => ?_, ?_,
    fun cluster span behind found => ?_, fun cluster span isLast found => ?_, ?_,
    fun cluster span before found => ?_⟩
  · exact of.positive _ (extent_mem_of_mem_place mem)
  · rw [fromFirst] at found
    exact (some.inj found) ▸ rfl
  · have inside : 1 < layout.parts.length := by omega
    refine ⟨_, getElem?_eq_getElem inside, later.offset_head ?_⟩
    rw [← getElem?_eq_getElem inside, fromFirst]
    rfl
  · obtain ⟨place, rfl⟩ := Nat.exists_eq_succ_of_ne_zero behind
    rw [fromFirst, getElem?_cons_succ] at found
    exact (later.bounds (mem_of_getElem? found)).1
  · rw [toLast, getElem?_append_right (by omega)] at found
    have here : cluster - front.length = 0 := by omega
    rw [here] at found
    obtain rfl := some.inj found
    exact sub_add_cancel _ _
  · have some : front ≠ [] := fun none => by
      rw [none, length_nil] at frontLength
      omega
    refine ⟨front.length - 1, front.getLast some, by omega, ?_, earlier.stop_getLast some⟩
    rw [toLast, getElem?_append_left (by omega), ← getLast?_eq_getElem?,
      getLast?_eq_getLast_of_ne_nil some]
  · have inside := (List.getElem?_eq_some_iff.mp found).1
    rw [toLast, getElem?_append_left (by omega)] at found
    exact (earlier.bounds (mem_of_getElem? found)).2.2

end

/-- The pads of the clusters are what the clusters need exactly when the second cluster begins
behind the padding, the last but one ends in front of it, and the last one reads all of it. -/
theorem getPerClusterPadding_agrees_iff (verified : layout.Verified) {shapes : List Shape}
    (accepted : getPerClusterMemoryShapes layout.shape layout.distribution = .ok (some shapes)) :
    layout.PaddingAgrees ↔ layout.PaddingFits := by
  have shareable : layout.Shareable := by
    rcases overlapped_cases verified with ⟨-, none, -⟩ | ⟨shareable, -⟩
    · rw [accepted] at none
      cases none
    · exact shareable
  have parted := parted verified shareable
  have wellFormed := verified.wellFormed
  have fits := fits_of_parts verified (exists_parts verified shareable).1
  rw [paddingAgrees_iff_needs verified shareable]
  constructor
  · intro needs
    obtain ⟨second, secondFound, secondOffset⟩ := parted.second
    obtain ⟨cluster, lastButOne, place, found, stop⟩ := parted.lastButOne
    have before := (needs 1 second secondFound).before
    have after := (needs cluster lastButOne found).after
    refine ⟨?_, ?_, ?_⟩
    · unfold Window.before share at before
      dsimp only at before
      rw [secondOffset] at before
      omega
    · unfold Window.after share at after
      dsimp only at after
      rw [stop] at after
      omega
    · have inside : cluster + 1 < layout.parts.length := by have := parted.length; omega
      have lastFound := getElem?_eq_getElem inside
      have lastAfter := (needs (cluster + 1) _ lastFound).after
      rw [if_pos (by omega), share, parted.last (cluster + 1) _ (by omega) lastFound] at lastAfter
      exact (after_last_iff wellFormed fits _).mp lastAfter
  · intro paddingFits cluster span found
    have stridePos := wellFormed.stride_pos
    refine ⟨?_, ?_⟩
    · by_cases first : cluster = 0
      · rw [if_pos first]
        have offset := parted.first span (first ▸ found)
        have nonneg := wellFormed.padBefore_nonneg
        unfold Window.before share
        rw [offset, zero_mul]
        omega
      · have begins := parted.later cluster span first found
        have scaled := mul_le_mul_of_nonneg_right begins stridePos.le
        have second := paddingFits.second
        unfold Window.before share
        dsimp only
        omega
    · by_cases last : (cluster : Int) + 1 = layout.numClusters
      · rw [if_pos last, share, parted.last cluster span last found]
        exact (after_last_iff wellFormed fits _).mpr paddingFits.last
      · have ends := parted.earlier cluster span last found
        have scaled := mul_le_mul_of_nonneg_right (sub_le_sub_right ends 1) stridePos.le
        have lastButOne := paddingFits.lastButOne
        unfold Window.after share
        dsimp only
        omega

/-- A row of outputs for each of four clusters, which read two rows around their own. -/
def rowLayout (kernel padBefore padAfter : Int) : Overlapping :=
  ⟨⟨⟨4, kernel, 1, padBefore, padAfter⟩, ⟨4, 1, 1, 0, 0⟩⟩, 1, 16, [1, 1, 4, 1], 4, [], false⟩

theorem rowLayout_verified (kernel padBefore padAfter : Int)
    (wellFormed : Window.WellFormed ⟨4, kernel, 1, padBefore, padAfter⟩) :
    (rowLayout kernel padBefore padAfter).Verified :=
  ⟨⟨wellFormed, ⟨Int.one_pos, le_rfl, Int.one_pos, le_rfl, Int.one_pos⟩⟩, .inl rfl, rfl, trivial,
    rfl, fun extent mem => by
      unfold Overlapping.shape rowLayout Layer.inputShape at mem
      simp only [mem_cons, not_mem_nil, or_false] at mem
      omega⟩

/-- A kernel of three reads the padding only at the ends. -/
theorem rowLayout_agrees : (rowLayout 3 1 1).PaddingAgrees :=
  (@getPerClusterPadding_agrees_iff (rowLayout 3 1 1)
    (rowLayout_verified 3 1 1 (by constructor <;> decide))
    [[1, 16, 2, 4], [1, 16, 3, 4], [1, 16, 3, 4], [1, 16, 2, 4]] (by decide)).mpr
      ⟨by decide, by decide, .inr (by decide)⟩

/-- With a kernel of five the second cluster reads a row of the padding. -/
theorem rowLayout_misses : (rowLayout 5 2 2).Verified ∧
    getPerClusterMemoryShapes (rowLayout 5 2 2).shape (rowLayout 5 2 2).distribution =
      .ok (some [[1, 16, 3, 4], [1, 16, 4, 4], [1, 16, 4, 4], [1, 16, 3, 4]]) ∧
    ¬ (rowLayout 5 2 2).PaddingAgrees := by
  have verified := rowLayout_verified 5 2 2 (by constructor <;> decide)
  refine ⟨verified, by decide, fun agrees => ?_⟩
  have shareable : (rowLayout 5 2 2).Shareable := ⟨by decide, by decide, by decide⟩
  have needs := (paddingAgrees_iff_needs verified shareable).mp agrees 1 ⟨1, 1⟩ rfl
  exact absurd needs.before (by decide)

end NpuPlugin.Distribution
