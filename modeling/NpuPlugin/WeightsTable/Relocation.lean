/-
This file models the relocation of the pointers of a weights table, how it is rewritten when a slice
of the channels is taken before it, and the bits that stand in for the activation window of
channel-major, depthwise and pooling tasks.
-/

import Mathlib.Tactic.LinearCombination
import NpuPlugin.ConstTransformations.Content
import NpuPlugin.Utils.Numeric

namespace NpuPlugin.WeightsTable

open Bool Except List Option Run

/-- The row of an output channel. -/
structure Entry where
  weightsPtr : Int
  sparsityPtr : Int
  multShift : Int
  bias : Int
deriving DecidableEq, Repr

abbrev Table := List Entry

/-- `VPUIP::SparsityCompressionAttr` -/
structure SparsityCompression where
  axis : Int
  numElems : List Nat
  alignment : Option Int
deriving DecidableEq, Repr

structure RelocateWeightsTable where
  weightsPtr : List Int
  sparsityPtr : Int
  offsets : List Nat
  weightsTableSize : Nat
  weightsElemBitSize : Option Nat
  weightsCompression : Option SparsityCompression
  channelOffset : Option Int
deriving DecidableEq, Repr

/-- What is thrown. `undefined` stands for an index outside of a container. -/
inductive RelocateFailure
  | invalidWeightsCompression (numElems OC : Nat)
  | missingWeightsElementType
  | zeroAlignment
  | undefined
deriving DecidableEq, Repr

def numElemPerOC : Nat := 4

def SPARSITY_PTR_WHEN_NO_SPARSITY : Int := 0xFFFFFF

def VPU_WEIGHT_SET_BYTE_ALIGNMENT : Int := 16

/-- `std::adjacent_find` with `std::not_equal_to` finds something. -/
def areDifferent : List Nat → Bool
  | first :: second :: rest => first != second || areDifferent (second :: rest)
  | _ => false

/-- The distance of the first two pointers, when there are two channels. -/
def pointerStep (numWTEntries : Nat) (pointer : Entry → Int) (table : Table) : Int :=
  if numElemPerOC * 2 ≤ numWTEntries then
    match table with
    | first :: second :: _ => pointer second - pointer first
    | _ => 0
  else 0

namespace RelocateWeightsTable

variable (attr : RelocateWeightsTable)

def numWTEntries : Nat := attr.weightsTableSize / 4

def OC : Nat := attr.numWTEntries / numElemPerOC

variable (table : Table)

def weightPtrStep : Int := pointerStep attr.numWTEntries Entry.weightsPtr table

def sparsityPtrStep : Int := pointerStep attr.numWTEntries Entry.sparsityPtr table

/-- In case all clusters have the same channel offsets, the weights are not segmented -/
def areWeightsSegmented : Bool := areDifferent attr.offsets

def isNewCluster (oc currentClusterIdx : Nat) : Bool :=
  attr.areWeightsSegmented && currentClusterIdx + 1 < attr.offsets.length &&
    attr.offsets.getD (currentClusterIdx + 1) 0 ≤ oc

def nextCluster (oc currentClusterIdx : Nat) : Nat :=
  if attr.isNewCluster oc currentClusterIdx then currentClusterIdx + 1 else currentClusterIdx

/-- `clusterIdx` in the turn of a channel. -/
def clusterIdx : Nat → Nat
  | 0 => attr.nextCluster 0 0
  | oc + 1 => attr.nextCluster (oc + 1) (clusterIdx oc)

def compressionAlignment (compression : SparsityCompression) : Int :=
  compression.alignment.getD VPU_WEIGHT_SET_BYTE_ALIGNMENT

def weightSetSize (compression : SparsityCompression) (oc : Nat) : Int :=
  let weightSetByteSize : Nat :=
    (compression.numElems.getD oc 0 * attr.weightsElemBitSize.getD 0 + 7) / 8
  Signed.alignValUp weightSetByteSize (compressionAlignment compression)

/-- `ptrOffset` in the turn of a channel, after it was reset for a new cluster. -/
def ptrOffset (compression : SparsityCompression) : Nat → Int
  | 0 => 0
  | oc + 1 =>
    if attr.isNewCluster (oc + 1) (attr.clusterIdx oc) then 0
    else ptrOffset compression oc + attr.weightSetSize compression oc

def clusterOffset (oc : Nat) : Except RelocateFailure Nat :=
  match attr.offsets[attr.clusterIdx oc]? with
  | some offset => .ok offset
  | none => .error .undefined

def clusterWeightsPtr (oc : Nat) : Except RelocateFailure Int :=
  match attr.weightsPtr[attr.clusterIdx oc]? with
  | some weightsPtr => .ok weightsPtr
  | none => .error .undefined

/-- What the sizes of compressed weights need. -/
def checkCompression : Except RelocateFailure Unit :=
  match attr.weightsCompression with
  | none => .ok ()
  | some compression =>
    if compression.numElems.length ≠ attr.OC then
      .error (.invalidWeightsCompression compression.numElems.length attr.OC)
    else if attr.weightsElemBitSize = none then .error .missingWeightsElementType
    else if compressionAlignment compression = 0 then .error .zeroAlignment
    else .ok ()

def weightsPtrStep (oc : Nat) : Except RelocateFailure Int :=
  match attr.weightsCompression with
  | some compression => .ok (attr.ptrOffset compression oc)
  | none => do
    let offset ← attr.clusterOffset oc
    return attr.weightPtrStep table * (oc - offset)

def channel : Int := attr.channelOffset.getD 0

def relocatedSparsityPtr (sparsityPtr : Int) (oc : Nat) : Except RelocateFailure Int :=
  if sparsityPtr ≠ SPARSITY_PTR_WHEN_NO_SPARSITY then do
    let offset ← attr.clusterOffset oc
    return attr.sparsityPtr + (oc - offset) * attr.sparsityPtrStep table +
      attr.channel * attr.sparsityPtrStep table
  else .ok sparsityPtr

def relocated (entry : Entry) (oc : Nat) : Except RelocateFailure Entry := do
  let weightsPtr ← attr.clusterWeightsPtr oc
  let weightsPtrStep ← attr.weightsPtrStep table oc
  let sparsityPtr ← attr.relocatedSparsityPtr table entry.sparsityPtr oc
  return { entry with
    weightsPtr := weightsPtr + weightsPtrStep + attr.channel * attr.weightPtrStep table
    sparsityPtr }

def transform : Except RelocateFailure Table := do
  attr.checkCompression
  table.zipIdx.mapM fun row =>
    if row.2 < attr.OC then attr.relocated table row.1 row.2 else .ok row.1

end RelocateWeightsTable

/-- `SubViewAttr`, the first dimension being that of the channels. -/
structure SubView where
  offset : List Nat
  shape : List Nat
deriving DecidableEq, Repr

variable (subView : SubView)

def SubView.channelOffset : Nat := subView.offset.headD 0

def SubView.channels : Nat := subView.shape.headD 0

def SubView.transform (table : Table) : Table :=
  (table.drop subView.channelOffset).take subView.channels

def isSlicedOverFirstDim (relocateOutputShape : List Nat) : Bool :=
  (List.range subView.shape.length).all fun outputDim =>
    !(0 < subView.offset.getD outputDim 0 ||
      subView.shape.getD outputDim 0 < relocateOutputShape.getD outputDim 0) || outputDim == 0

/-- The cluster whose values are sliced, if they are those of one cluster. -/
def slicedCluster (clusterOffsets : List Nat) (subviewOffset subviewSize : Nat) : Option Nat :=
  match clusterOffsets.findIdx? (· == subviewOffset) with
  | none => none
  | some clusterIdx =>
    match clusterOffsets[clusterIdx + 1]? with
    | none => some clusterIdx
    | some nextOffset =>
      if (nextOffset - subviewOffset : Int) ≠ subviewSize then none else some clusterIdx

/-- `newWeightsPtrs`, `newClusterOffsets` and `newChannelOffset` -/
def slicedPointers (attr : RelocateWeightsTable) (subView : SubView) :
    Option (List Int × List Nat × Int) :=
  if areDifferent attr.offsets then
    match slicedCluster attr.offsets subView.channelOffset subView.channels with
    | none => none
    | some clusterIdx =>
      match attr.weightsPtr[clusterIdx]? with
      | none => none
      | some weightsPtr => some ([weightsPtr], [0], attr.channel)
  else some (attr.weightsPtr, attr.offsets, attr.channel + subView.channelOffset)

/-- The sparsity compression of the sliced channels; there is none when it is not over channels. -/
def slicedCompression :
    Option SparsityCompression → Option (Option SparsityCompression)
  | none => some none
  | some compression =>
    if compression.axis ≠ 0 then none
    else some (some { compression with
      numElems := (compression.numElems.drop subView.channelOffset).take subView.channels })

def prepareRelocateWeightsTableSwap (attr : RelocateWeightsTable) (subView : SubView)
    (relocateOutputShape : List Nat) : Option RelocateWeightsTable :=
  -- More than one channel must be present for the transformation to deduce the weights pointer step
  if subView.channels ≤ 1 then none
  else if !isSlicedOverFirstDim subView relocateOutputShape then none
  else
    let tableEntrySize := attr.weightsTableSize / 4 / relocateOutputShape.headD 0
    match slicedPointers attr subView, slicedCompression subView attr.weightsCompression with
    | some (newWeightsPtrs, newClusterOffsets, newChannelOffset), some newWeightsCompression =>
      some { attr with
        weightsPtr := newWeightsPtrs
        offsets := newClusterOffsets
        weightsTableSize := tableEntrySize * subView.channels * 4
        weightsCompression := newWeightsCompression
        channelOffset := some newChannelOffset }
    | _, _ => none

/-! ### Clusters -/

/-- The offsets of the clusters are all the same, or every cluster begins behind the one before. -/
def Clusters (offsets : List Nat) : Prop := areDifferent offsets = false ∨ offsets.Pairwise (· < ·)

namespace RelocateWeightsTable

variable {attr : RelocateWeightsTable}

theorem nextCluster_whole (whole : attr.areWeightsSegmented = false) (oc currentClusterIdx : Nat) :
    attr.nextCluster oc currentClusterIdx = currentClusterIdx := by
  unfold nextCluster isNewCluster
  rw [whole]
  rfl

theorem clusterIdx_whole (whole : attr.areWeightsSegmented = false) (oc : Nat) :
    attr.clusterIdx oc = 0 := by
  induction oc with
  | zero => exact nextCluster_whole whole 0 0
  | succ oc ih =>
    unfold clusterIdx
    rw [nextCluster_whole whole, ih]

theorem isNewCluster_iff (segmented : attr.areWeightsSegmented = true) {oc cluster : Nat} :
    attr.isNewCluster oc cluster = true ↔
      ∃ next, attr.offsets[cluster + 1]? = some next ∧ next ≤ oc := by
  unfold isNewCluster
  rw [segmented, Bool.true_and, Bool.and_eq_true, decide_eq_true_eq, decide_eq_true_eq]
  constructor
  · rintro ⟨inside, below⟩
    refine ⟨_, getElem?_eq_getElem inside, ?_⟩
    rw [getD_eq_getElem?_getD, getElem?_eq_getElem inside] at below
    exact below
  · rintro ⟨next, found, below⟩
    refine ⟨(List.getElem?_eq_some_iff.mp found).1, ?_⟩
    rw [getD_eq_getElem?_getD, found]
    exact below

/-- A channel comes behind the offset of its cluster, but for those in front of all of them, and
before that of the next one. -/
structure Belongs (attr : RelocateWeightsTable) (oc cluster : Nat) : Prop where
  above : cluster = 0 ∨ ∃ offset, attr.offsets[cluster]? = some offset ∧ offset ≤ oc
  below : ∀ next, attr.offsets[cluster + 1]? = some next → oc < next

theorem offset_lt (ordered : attr.offsets.Pairwise (· < ·)) {first second : Nat} {low high : Nat}
    (less : first < second) (foundFirst : attr.offsets[first]? = some low)
    (foundSecond : attr.offsets[second]? = some high) : low < high := by
  obtain ⟨_, rfl⟩ := List.getElem?_eq_some_iff.mp foundFirst
  obtain ⟨_, rfl⟩ := List.getElem?_eq_some_iff.mp foundSecond
  exact pairwise_iff_getElem.mp ordered _ _ _ _ less

theorem belongs_clusterIdx (segmented : attr.areWeightsSegmented = true)
    (ordered : attr.offsets.Pairwise (· < ·)) (oc : Nat) :
    attr.Belongs oc (attr.clusterIdx oc) := by
  have new := @isNewCluster_iff attr segmented
  induction oc with
  | zero =>
    have stays : attr.isNewCluster 0 0 = false := by
      refine eq_false_iff.mpr fun isNew => ?_
      obtain ⟨next, found, zero⟩ := new.mp isNew
      obtain ⟨inside, _⟩ := List.getElem?_eq_some_iff.mp found
      have first := getElem?_eq_getElem (Nat.zero_lt_of_lt inside)
      exact absurd (offset_lt ordered Nat.one_pos first found) (by omega)
    unfold clusterIdx nextCluster
    rw [if_neg (eq_false_iff.mp stays)]
    refine ⟨.inl rfl, fun next found => ?_⟩
    exact not_le.mp fun le => eq_false_iff.mp stays (new.mpr ⟨next, found, le⟩)
  | succ oc ih =>
    unfold clusterIdx nextCluster
    split
    · next isNew =>
      obtain ⟨next, found, le⟩ := new.mp isNew
      refine ⟨.inr ⟨next, found, le⟩, fun later foundLater => ?_⟩
      -- The channel before was in front of the next cluster, so this one begins it.
      have before := ih.below next found
      have further := offset_lt ordered (Nat.lt_succ_self _) found foundLater
      omega
    · next stays =>
      refine ⟨ih.above.imp id ?_, fun next found => ?_⟩
      · rintro ⟨offset, found, le⟩
        exact ⟨offset, found, Nat.le_succ_of_le le⟩
      · exact not_le.mp fun le => stays (new.mpr ⟨next, found, le⟩)

theorem Belongs.unique (ordered : attr.offsets.Pairwise (· < ·)) {oc first second : Nat}
    (one : attr.Belongs oc first) (other : attr.Belongs oc second) : first = second := by
  have le : ∀ {first second : Nat}, attr.Belongs oc first → attr.Belongs oc second →
      first ≤ second := by
    intro first second one other
    by_contra less
    obtain ⟨offset, found, above⟩ := one.above.resolve_left (by omega)
    obtain ⟨inside, _⟩ := List.getElem?_eq_some_iff.mp found
    have next := getElem?_eq_getElem (by omega : second + 1 < attr.offsets.length)
    have below := other.below _ next
    rcases Nat.lt_or_eq_of_le (not_le.mp less : second + 1 ≤ first) with behind | same
    · have later := offset_lt ordered behind next found
      omega
    · subst same
      rw [found] at next
      have equal := some.inj next
      omega
  exact le_antisymm (le one other) (le other one)

/-! ### The offsets of compressed weights -/

variable {compression : SparsityCompression}

/-- The bytes of the weights of a number of channels from a first one on. -/
def bytesOf (attr : RelocateWeightsTable) (compression : SparsityCompression) (first count : Nat) :
    Int :=
  ((List.range count).map fun idx => attr.weightSetSize compression (first + idx)).sum

theorem bytesOf_succ (first count : Nat) : attr.bytesOf compression first (count + 1) =
    attr.bytesOf compression first count + attr.weightSetSize compression (first + count) := by
  unfold bytesOf
  rw [range_succ, map_append, sum_append, map_singleton, sum_singleton]

theorem ptrOffset_add {first count : Nat}
    (same : ∀ idx ≤ count, attr.clusterIdx (first + idx) = attr.clusterIdx first) :
    attr.ptrOffset compression (first + count) =
      attr.ptrOffset compression first + attr.bytesOf compression first count := by
  induction count with
  | zero => exact (add_zero _).symm
  | succ count ih =>
    have stays : ¬ attr.isNewCluster (first + count + 1) (attr.clusterIdx (first + count)) =
        true := by
      intro isNew
      have next : attr.clusterIdx (first + count + 1) = attr.clusterIdx (first + count) + 1 :=
        if_pos isNew
      have here := same count (Nat.le_succ count)
      have there := same (count + 1) le_rfl
      rw [← add_assoc] at there
      omega
    rw [← add_assoc, ptrOffset, if_neg stays, ih fun idx small =>
      same idx (Nat.le_succ_of_le small), bytesOf_succ, add_assoc]

theorem ptrOffset_begin (segmented : attr.areWeightsSegmented = true)
    (ordered : attr.offsets.Pairwise (· < ·)) {cluster first : Nat}
    (found : attr.offsets[cluster + 1]? = some first) : attr.ptrOffset compression first = 0 := by
  cases first with
  | zero => rfl
  | succ before =>
    obtain ⟨inside, _⟩ := List.getElem?_eq_some_iff.mp found
    have here := getElem?_eq_getElem (by omega : cluster < attr.offsets.length)
    have less := offset_lt ordered (Nat.lt_succ_self cluster) here found
    have belongs : attr.Belongs before cluster := by
      refine ⟨.inr ⟨_, here, Nat.le_of_lt_succ less⟩, fun next other => ?_⟩
      rw [found] at other
      obtain rfl := some.inj other
      exact Nat.lt_succ_self before
    have cluster_eq := (belongs_clusterIdx segmented ordered before).unique ordered belongs
    have isNew : attr.isNewCluster (before + 1) (attr.clusterIdx before) = true := by
      rw [cluster_eq]
      exact (isNewCluster_iff segmented).mpr ⟨before + 1, found, le_rfl⟩
    exact if_pos isNew

end RelocateWeightsTable

/-! ### Slices -/

theorem slicedCluster_eq {clusterOffsets : List Nat} {subviewOffset subviewSize cluster : Nat}
    (sliced : slicedCluster clusterOffsets subviewOffset subviewSize = some cluster) :
    clusterOffsets[cluster]? = some subviewOffset ∧ ∀ next, clusterOffsets[cluster + 1]? =
      some next →
      next = subviewOffset + subviewSize := by
  unfold slicedCluster at sliced
  split at sliced
  · cases sliced
  next idx found =>
  obtain ⟨inside, same, _⟩ := findIdx?_eq_some_iff_getElem.mp found
  have here : clusterOffsets[idx]? = some subviewOffset := by
    rw [getElem?_eq_getElem inside, eq_of_beq same]
  split at sliced
  · next none =>
    cases sliced
    exact ⟨here, fun next other => absurd (none.symm.trans other) nofun⟩
  · next nextOffset nextFound =>
    split at sliced
    · cases sliced
    · next exact =>
      cases sliced
      refine ⟨here, fun next other => ?_⟩
      rw [nextFound] at other
      obtain rfl := some.inj other
      omega

/-! ### Tables and slices -/

/-- A pointer advances by the same step from each channel to the next one. -/
def Advances (table : Table) (pointer : Entry → Int) (step : Int) : Prop :=
  ∀ (oc : Nat) first second, table[oc]? = some first → table[oc + 1]? = some second →
    pointer second - pointer first = step

variable {table : Table} {pointer : Entry → Int} {step : Int} {first count : Nat}

theorem pointerStep_eq {numWTEntries : Nat} (advances : Advances table pointer step)
    (two : 2 ≤ table.length) (many : 8 ≤ numWTEntries) :
    pointerStep numWTEntries pointer table = step := by
  obtain ⟨first, second, rest, rfl⟩ : ∃ first second rest, table = first :: second :: rest := by
    cases table with
    | nil => cases two
    | cons first others =>
      cases others with
      | nil => exact absurd two (Nat.not_succ_le_self 1)
      | cons second rest => exact ⟨first, second, rest, rfl⟩
  exact (if_pos many).trans (advances 0 first second rfl rfl)

theorem getElem?_slice {Item : Type} {items : List Item} {index : Nat} (small : index < count) :
    ((items.drop first).take count)[index]? = items[first + index]? := by
  rw [getElem?_take_of_lt small, getElem?_drop]

theorem Advances.slice (advances : Advances table pointer step) :
    Advances ((table.drop first).take count) pointer step := by
  intro oc one other foundOne foundOther
  have small : oc + 1 < count := by
    have inside := (List.getElem?_eq_some_iff.mp foundOther).1
    rw [List.length_take] at inside
    omega
  rw [getElem?_slice (by omega)] at foundOne
  rw [getElem?_slice small, ← add_assoc] at foundOther
  exact advances (first + oc) one other foundOne foundOther

theorem RelocateWeightsTable.transform_ok_iff {attr : RelocateWeightsTable} {output : Table}
    (whole : attr.OC = table.length) : attr.transform table = .ok output ↔
      attr.checkCompression = .ok () ∧ output.length = table.length ∧
        ∀ (oc : Nat) entry, table[oc]? = some entry →
          ∃ out, output[oc]? = some out ∧ attr.relocated table entry oc = .ok out := by
  have rows : (table.zipIdx.mapM fun row =>
      if row.2 < attr.OC then attr.relocated table row.1 row.2 else .ok row.1) = .ok output ↔
        output.length = table.length ∧ ∀ (oc : Nat) entry, table[oc]? = some entry →
          ∃ out, output[oc]? = some out ∧ attr.relocated table entry oc = .ok out := by
    rw [mapM_ok_iff, length_zipIdx]
    refine and_congr_right fun _ => forall_congr' fun oc => ?_
    rw [getElem?_zipIdx, zero_add]
    constructor
    · intro each entry found
      have small : oc < attr.OC := (List.getElem?_eq_some_iff.mp found).1.trans_eq whole.symm
      obtain ⟨out, here, res⟩ := each (entry, oc) (congrArg (Option.map (·, oc)) found)
      rw [if_pos small] at res
      exact ⟨out, here, res⟩
    · intro each row found
      obtain ⟨entry, inTable, rfl⟩ := Option.map_eq_some_iff.mp found
      have small : oc < attr.OC := (List.getElem?_eq_some_iff.mp inTable).1.trans_eq whole.symm
      rw [if_pos small]
      exact each entry inTable
  unfold transform
  cases checked : attr.checkCompression with
  | error failure => exact ⟨nofun, fun res => absurd res.1 nofun⟩
  | ok checks => exact rows.trans (and_iff_right rfl).symm

/-! ### The relocation of a slice -/

/-- Relocating a slice with another attribute: the channels belong to one cluster, whose pointers
are the same. -/
structure Slices (attr newAttr : RelocateWeightsTable) (first count cluster : Nat) : Prop where
  clusterIdx : ∀ index < count, attr.clusterIdx (first + index) = cluster
  newClusterIdx : ∀ index, newAttr.clusterIdx index = 0
  weightsPtr : newAttr.weightsPtr[0]? = attr.weightsPtr[cluster]?
  offset : ∀ offset, attr.offsets[cluster]? = some offset →
    ∃ newOffset : Nat, newAttr.offsets[0]? = some newOffset ∧
      newAttr.channel - newOffset = attr.channel + first - offset
  sparsityPtr : newAttr.sparsityPtr = attr.sparsityPtr
  weightsElemBitSize : newAttr.weightsElemBitSize = attr.weightsElemBitSize
  weightsCompression : newAttr.weightsCompression = attr.weightsCompression.map fun compression =>
    { compression with numElems := (compression.numElems.drop first).take count }

/-- How far the weights pointers of a slice are off. -/
def drift (attr newAttr : RelocateWeightsTable) (first : Nat) (step : Int) : Int :=
  match attr.weightsCompression with
  | none => 0
  | some compression => (newAttr.channel - attr.channel) * step - attr.ptrOffset compression first

section Rows

open RelocateWeightsTable

variable {attr newAttr : RelocateWeightsTable} {first count cluster : Nat}
  {compression : SparsityCompression} {index : Nat} {slice : Table} {weightsStep sparsityStep : Int}

section

variable (slices : Slices attr newAttr first count cluster)
include slices

theorem Slices.weightSetSize (small : index < count) :
    newAttr.weightSetSize { compression with
      numElems := (compression.numElems.drop first).take count } index =
        attr.weightSetSize compression (first + index) := by
  unfold RelocateWeightsTable.weightSetSize
  rw [slices.weightsElemBitSize, getD_eq_getElem?_getD, getD_eq_getElem?_getD, getElem?_slice small]
  rfl

theorem Slices.ptrOffset (small : index < count) :
    attr.ptrOffset compression (first + index) =
      attr.ptrOffset compression first + newAttr.ptrOffset { compression with
        numElems := (compression.numElems.drop first).take count } index := by
  have start := slices.clusterIdx 0 (Nat.zero_lt_of_lt small)
  have inside := @ptrOffset_add attr compression first index fun other le =>
    (slices.clusterIdx other (le.trans_lt small)).trans start.symm
  have sliced := @ptrOffset_add newAttr { compression with
    numElems := (compression.numElems.drop first).take count } 0 index fun other _ =>
      (slices.newClusterIdx _).trans (slices.newClusterIdx 0).symm
  have bytes : newAttr.bytesOf { compression with
      numElems := (compression.numElems.drop first).take count } 0 index =
        attr.bytesOf compression first index := by
    refine congrArg List.sum (map_congr_left fun other mem => ?_)
    rw [zero_add, slices.weightSetSize ((mem_range.mp mem).trans small)]
  rw [zero_add] at sliced
  rw [inside, sliced, bytes]
  exact congrArg (_ + ·) (zero_add _).symm

theorem Slices.clusterOffset {offset : Nat} (small : index < count)
    (found : attr.clusterOffset (first + index) = .ok offset) :
    ∃ newOffset : Nat, newAttr.clusterOffset index = .ok newOffset ∧
      newAttr.channel - newOffset = attr.channel + first - offset := by
  unfold RelocateWeightsTable.clusterOffset at found ⊢
  rw [slices.clusterIdx index small] at found
  rw [slices.newClusterIdx index]
  split at found
  · next other here =>
    cases found
    obtain ⟨newOffset, there, same⟩ := slices.offset offset here
    rw [there]
    exact ⟨newOffset, rfl, same⟩
  · cases found

theorem Slices.weightsPtrStep (weights : attr.weightPtrStep table = weightsStep)
    (newWeights : newAttr.weightPtrStep slice = weightsStep) (small : index < count)
    (res : attr.weightsPtrStep table (first + index) = .ok step) :
    newAttr.weightsPtrStep slice index = .ok (step + drift attr newAttr first weightsStep +
      (attr.channel - newAttr.channel) * weightsStep) := by
  unfold RelocateWeightsTable.weightsPtrStep drift at *
  rw [slices.weightsCompression]
  cases compressed : attr.weightsCompression with
  | none =>
    rw [compressed] at res
    obtain ⟨offset, found, same⟩ := bind_ok res
    obtain ⟨newOffset, newFound, distance⟩ := slices.clusterOffset small found
    cases same
    refine (ok_bind newFound _).trans (congrArg ok ?_)
    rw [weights, newWeights]
    push_cast
    linear_combination weightsStep * distance
  | some compression =>
    rw [compressed] at res
    cases res
    refine congrArg ok ?_
    rw [slices.ptrOffset small]
    ring

theorem Slices.relocatedSparsityPtr {sparsityPtr relocated : Int}
    (sparsity : attr.sparsityPtrStep table = sparsityStep)
    (newSparsity : newAttr.sparsityPtrStep slice = sparsityStep) (small : index < count)
    (res : attr.relocatedSparsityPtr table sparsityPtr (first + index) = .ok relocated) :
    newAttr.relocatedSparsityPtr slice sparsityPtr index = .ok relocated := by
  unfold RelocateWeightsTable.relocatedSparsityPtr at *
  split at res
  · next sparse =>
    rw [if_pos sparse]
    obtain ⟨offset, found, same⟩ := bind_ok res
    obtain ⟨newOffset, newFound, distance⟩ := slices.clusterOffset small found
    cases same
    refine (ok_bind newFound _).trans (congrArg ok ?_)
    rw [sparsity, newSparsity, slices.sparsityPtr]
    push_cast
    linear_combination sparsityStep * distance
  · next dense =>
    rw [if_neg dense]
    exact res

theorem Slices.relocated (weights : attr.weightPtrStep table = weightsStep)
    (sparsity : attr.sparsityPtrStep table = sparsityStep)
    (newWeights : newAttr.weightPtrStep slice = weightsStep)
    (newSparsity : newAttr.sparsityPtrStep slice = sparsityStep) (small : index < count)
    {entry out : Entry} (res : attr.relocated table entry (first + index) = .ok out) :
    newAttr.relocated slice entry index = .ok { out with
      weightsPtr := out.weightsPtr + drift attr newAttr first weightsStep } := by
  obtain ⟨weightsPtr, foundPtr, rest⟩ := bind_ok res
  obtain ⟨step, foundStep, rest⟩ := bind_ok rest
  obtain ⟨sparsityPtr, foundSparsity, same⟩ := bind_ok rest
  cases same
  have newPtr : newAttr.clusterWeightsPtr index = .ok weightsPtr := by
    unfold clusterWeightsPtr at foundPtr ⊢
    rw [slices.newClusterIdx, slices.weightsPtr, ← slices.clusterIdx index small]
    exact foundPtr
  refine (ok_bind newPtr _).trans ?_
  refine (ok_bind (slices.weightsPtrStep weights newWeights small foundStep) _).trans ?_
  refine (ok_bind (slices.relocatedSparsityPtr sparsity newSparsity small foundSparsity) _).trans ?_
  refine congrArg (fun pointer => ok (Entry.mk pointer _ _ _)) ?_
  rw [weights, newWeights]
  ring

end

end Rows

/-! ### The rewritten attribute -/

open Nat Prod RelocateWeightsTable

variable {attr newAttr : RelocateWeightsTable} {subView : SubView} {relocateOutputShape : List Nat}

/-- What the attribute of a slice is made of. -/
structure Prepared (attr newAttr : RelocateWeightsTable) (subView : SubView)
    (relocateOutputShape : List Nat) : Prop where
  two : 2 ≤ subView.channels
  pointers : slicedPointers attr subView =
    some (newAttr.weightsPtr, newAttr.offsets, newAttr.channel)
  compression : slicedCompression subView attr.weightsCompression = some newAttr.weightsCompression
  sparsityPtr : newAttr.sparsityPtr = attr.sparsityPtr
  weightsElemBitSize : newAttr.weightsElemBitSize = attr.weightsElemBitSize
  weightsTableSize : newAttr.weightsTableSize =
    attr.weightsTableSize / 4 / relocateOutputShape.headD 0 * subView.channels * 4

theorem prepared_of_swap
    (swap : prepareRelocateWeightsTableSwap attr subView relocateOutputShape = some newAttr) :
    Prepared attr newAttr subView relocateOutputShape := by
  unfold prepareRelocateWeightsTableSwap at swap
  split at swap
  · cases swap
  next many =>
  split at swap
  · cases swap
  split at swap
  · next newWeightsPtrs newClusterOffsets newChannelOffset newCompression pointers compression =>
    cases swap
    exact ⟨not_le.mp many, pointers, compression, rfl, rfl, rfl⟩
  · cases swap

theorem Prepared.OC (prepared : Prepared attr newAttr subView relocateOutputShape) {channels : Nat}
    (shape : relocateOutputShape.headD 0 = channels) (size : attr.weightsTableSize = channels * 16)
    (some : 0 < channels) : newAttr.OC = subView.channels := by
  have rows : attr.weightsTableSize / 4 / relocateOutputShape.headD 0 = 4 := by
    rw [shape, size, show channels * 16 = channels * 4 * 4 from by ring,
      Nat.mul_div_cancel _ (by decide : 0 < 4), Nat.mul_div_cancel_left _ some]
  unfold RelocateWeightsTable.OC RelocateWeightsTable.numWTEntries numElemPerOC
  rw [prepared.weightsTableSize, rows, Nat.mul_div_cancel _ (by decide : 0 < 4),
    Nat.mul_div_cancel_left _ (by decide : 0 < 4)]

theorem slicedCompression_eq {compression : Option SparsityCompression}
    {newCompression : Option SparsityCompression}
    (sliced : slicedCompression subView compression = some newCompression) :
    newCompression = compression.map fun compression => { compression with
      numElems := (compression.numElems.drop subView.channelOffset).take subView.channels } := by
  cases compression with
  | none => exact (some.inj sliced).symm
  | some compression =>
    unfold slicedCompression at sliced
    dsimp only at sliced
    split at sliced
    · cases sliced
    · exact (some.inj sliced).symm

section

variable (prepared : Prepared attr newAttr subView relocateOutputShape)
include prepared

theorem Prepared.checkCompression (same : newAttr.OC = subView.channels)
    (inside : subView.channelOffset + subView.channels ≤ attr.OC)
    (checked : attr.checkCompression = .ok ()) : newAttr.checkCompression = .ok () := by
  unfold RelocateWeightsTable.checkCompression at checked ⊢
  rw [slicedCompression_eq prepared.compression, prepared.weightsElemBitSize, same]
  cases compressed : attr.weightsCompression with
  | none => rfl
  | some compression =>
    rw [compressed] at checked
    dsimp only [map_some] at checked ⊢
    split at checked
    · cases checked
    next enough =>
    have length : ((compression.numElems.drop subView.channelOffset).take
        subView.channels).length = subView.channels := by
      rw [length_take, length_drop]
      omega
    rw [if_neg (not_not.mpr length)]
    exact checked

/-- The attribute of a slice tells how far its weights pointers are moved, by whether the weights
are segmented. -/
structure Prepared.Placed (attr newAttr : RelocateWeightsTable) (subView : SubView)
    (cluster : Nat) :
    Prop where
  slices : Slices attr newAttr subView.channelOffset subView.channels cluster
  whole : attr.areWeightsSegmented = false →
    newAttr.channel = attr.channel + subView.channelOffset
  segmented : attr.areWeightsSegmented = true →
    attr.offsets[cluster]? = some subView.channelOffset ∧ newAttr.channel = attr.channel

theorem Prepared.placed (clusters : Clusters attr.offsets) :
    ∃ cluster, Placed attr newAttr subView cluster := by
  have pointers := prepared.pointers
  have compression := slicedCompression_eq prepared.compression
  unfold slicedPointers at pointers
  split at pointers
  · next segmented =>
    have ordered := clusters.resolve_left (ne_of_eq_of_ne segmented nofun)
    split at pointers
    · cases pointers
    next cluster sliced =>
    split at pointers
    · cases pointers
    next weightsPtr pointer =>
    obtain ⟨samePtr, sameRest⟩ := mk.inj (some.inj pointers)
    obtain ⟨sameOffsets, sameChannel⟩ := mk.inj sameRest
    obtain ⟨here, next⟩ := slicedCluster_eq sliced
    have inCluster : ∀ idx < subView.channels,
        attr.clusterIdx (subView.channelOffset + idx) = cluster := by
      intro idx small
      refine (belongs_clusterIdx segmented ordered _).unique ordered ⟨.inr ⟨_, here, ?_⟩, ?_⟩
      · exact le_add_right _ _
      · intro other found
        rw [next other found]
        exact Nat.add_lt_add_left small _
    refine ⟨cluster, ⟨inCluster, clusterIdx_whole ?_, ?_, ?_, prepared.sparsityPtr,
      prepared.weightsElemBitSize, compression⟩, ?_, fun _ => ⟨here, sameChannel.symm⟩⟩
    · unfold areWeightsSegmented
      rw [← sameOffsets]
      rfl
    · rw [← samePtr, pointer]
      rfl
    · intro offset found
      cases here.symm.trans found
      rw [← sameOffsets, ← sameChannel]
      refine ⟨0, rfl, ?_⟩
      rw [cast_zero, sub_zero, add_sub_cancel_right]
    · exact fun whole => absurd (segmented.symm.trans whole) nofun
  · next whole =>
    obtain ⟨samePtr, sameRest⟩ := mk.inj (some.inj pointers)
    obtain ⟨sameOffsets, sameChannel⟩ := mk.inj sameRest
    have notSegmented := Bool.eq_false_iff.mpr whole
    refine ⟨0, ⟨fun _ _ => clusterIdx_whole notSegmented _, clusterIdx_whole ?_, ?_, ?_,
      prepared.sparsityPtr, prepared.weightsElemBitSize, compression⟩, fun _ => sameChannel.symm,
      fun segmented => absurd segmented whole⟩
    · unfold areWeightsSegmented
      rw [← sameOffsets]
      exact notSegmented
    · rw [← samePtr]
    · intro offset found
      rw [← sameOffsets, ← sameChannel]
      exact ⟨offset, found, rfl⟩

end

/-! ### The condition -/

/-- The offset of the channels accounts for the bytes of the weights in front of a slice. Those of a
cluster begin anew, so that only the ones in front of the first cluster count. -/
def Accounted (attr : RelocateWeightsTable) (first : Nat) (step : Int) : Prop :=
  match attr.weightsCompression with
  | none => True
  | some compression =>
    if attr.areWeightsSegmented then
      attr.offsets.head? = some first → attr.bytesOf compression 0 first = 0
    else attr.bytesOf compression 0 first = first * step

theorem ptrOffset_first {compression : SparsityCompression} {first : Nat}
    (same : ∀ oc ≤ first, attr.clusterIdx oc = 0) :
    attr.ptrOffset compression first = attr.bytesOf compression 0 first := by
  have offset := @ptrOffset_add attr compression 0 first fun idx le => by
    rw [zero_add, same idx le, same 0 (zero_le _)]
  rw [zero_add] at offset
  exact offset.trans (zero_add _)

theorem drift_zero_iff {cluster : Nat} (clusters : Clusters attr.offsets)
    (placed : Prepared.Placed attr newAttr subView cluster) (step : Int) :
    drift attr newAttr subView.channelOffset step = 0 ↔
      Accounted attr subView.channelOffset step := by
  unfold drift Accounted
  cases attr.weightsCompression with
  | none => exact iff_of_true rfl trivial
  | some compression =>
    dsimp only
    split
    · next segmented =>
      obtain ⟨here, sameChannel⟩ := placed.segmented segmented
      have ordered := clusters.resolve_left (ne_of_eq_of_ne segmented nofun)
      rw [sameChannel, sub_self, zero_mul, zero_sub, neg_eq_zero, head?_eq_getElem?]
      cases cluster with
      | zero =>
        have inFront : ∀ oc ≤ subView.channelOffset, attr.clusterIdx oc = 0 := by
          intro oc le
          refine (belongs_clusterIdx segmented ordered oc).unique ordered ⟨.inl rfl, ?_⟩
          intro next found
          exact le.trans_lt (offset_lt ordered one_pos here found)
        rw [ptrOffset_first inFront]
        exact ⟨fun zero _ => zero, fun zero => zero here⟩
      | succ cluster =>
        refine iff_of_true (ptrOffset_begin segmented ordered here) fun first => ?_
        exact absurd (offset_lt ordered (succ_pos cluster) first here) (lt_irrefl _)
    · next whole =>
      have notSegmented := Bool.eq_false_iff.mpr whole
      rw [placed.whole notSegmented, add_sub_cancel_left,
        ptrOffset_first fun oc _ => clusterIdx_whole notSegmented oc, sub_eq_zero]
      exact eq_comm

/-! ### The swap -/

theorem OC_of_size {channels : Nat} (size : attr.weightsTableSize = channels * 16) :
    attr.OC = channels := by
  unfold RelocateWeightsTable.OC RelocateWeightsTable.numWTEntries numElemPerOC
  omega

theorem steps_eq {table : Table} {weightsStep sparsityStep : Int} (whole : attr.OC = table.length)
    (two : 2 ≤ table.length) (weights : Advances table Entry.weightsPtr weightsStep)
    (sparsity : Advances table Entry.sparsityPtr sparsityStep) :
    attr.weightPtrStep table = weightsStep ∧ attr.sparsityPtrStep table = sparsityStep := by
  have many : 8 ≤ attr.numWTEntries := by
    unfold RelocateWeightsTable.OC numElemPerOC at whole
    omega
  exact ⟨pointerStep_eq weights two many, pointerStep_eq sparsity two many⟩

variable {pointer : Entry → Int} {step : Int} (entry : Entry)

theorem addPtr_eq_iff (distance : Int) :
    { entry with weightsPtr := entry.weightsPtr + distance } = entry ↔ distance = 0 := by
  constructor
  · intro same
    have pointers := congrArg Entry.weightsPtr same
    exact add_eq_left.mp pointers
  · rintro rfl
    exact congrArg (fun pointer => { entry with weightsPtr := pointer }) (add_zero _)

/-- A relocation followed by a slice is the slice followed by the rewritten relocation exactly when
the offset of the channels accounts for the bytes in front of the slice. -/
theorem relocate_swap_iff {table output : Table} {weightsStep sparsityStep : Int}
    (size : attr.weightsTableSize = table.length * 16)
    (shape : relocateOutputShape.headD 0 = table.length) (clusters : Clusters attr.offsets)
    (weights : Advances table Entry.weightsPtr weightsStep)
    (sparsity : Advances table Entry.sparsityPtr sparsityStep)
    (inside : subView.channelOffset + subView.channels ≤ table.length)
    (swap : prepareRelocateWeightsTableSwap attr subView relocateOutputShape = some newAttr)
    (folds : attr.transform table = .ok output) :
    newAttr.transform (subView.transform table) = .ok (subView.transform output) ↔
      Accounted attr subView.channelOffset weightsStep := by
  have prepared := prepared_of_swap swap
  have two := prepared.two
  obtain ⟨cluster, placed⟩ := prepared.placed clusters
  have whole := OC_of_size size
  have newWhole := prepared.OC shape size (by omega)
  have sliceLength : (subView.transform table).length = subView.channels := by
    unfold SubView.transform
    rw [length_take, length_drop]
    omega
  obtain ⟨checked, outputLength, rows⟩ := (transform_ok_iff whole).mp folds
  have newChecked := prepared.checkCompression newWhole (inside.trans_eq whole.symm) checked
  have outputSliceLength : (subView.transform output).length = subView.channels := by
    unfold SubView.transform
    rw [length_take, length_drop]
    omega
  obtain ⟨weightsEq, sparsityEq⟩ := steps_eq whole (by omega) weights sparsity
  obtain ⟨newWeightsEq, newSparsityEq⟩ := steps_eq (newWhole.trans sliceLength.symm)
    (two.trans_eq sliceLength.symm) weights.slice sparsity.slice
  -- Every channel of the slice is moved by the drift.
  have sliced : ∀ idx < subView.channels, ∃ entry out,
      (subView.transform table)[idx]? = some entry ∧
        (subView.transform output)[idx]? = some out ∧
          newAttr.relocated (subView.transform table) entry idx = .ok { out with
            weightsPtr := out.weightsPtr + drift attr newAttr subView.channelOffset
              weightsStep } := by
    intro idx small
    have found := getElem?_eq_getElem
      (by omega : subView.channelOffset + idx < table.length)
    obtain ⟨out, outFound, res⟩ := rows _ _ found
    exact ⟨_, out, (getElem?_slice small).trans found, (getElem?_slice small).trans outFound,
      placed.slices.relocated weightsEq sparsityEq newWeightsEq newSparsityEq small res⟩
  rw [transform_ok_iff (newWhole.trans sliceLength.symm), ← drift_zero_iff clusters placed]
  constructor
  · rintro ⟨_, _, each⟩
    obtain ⟨entry, out, inSlice, outFound, res⟩ := sliced 0 (by omega)
    obtain ⟨other, otherFound, otherResult⟩ := each 0 entry inSlice
    cases outFound.symm.trans otherFound
    exact (addPtr_eq_iff out _).mp (Except.ok.inj (res.symm.trans otherResult))
  · intro zero
    refine ⟨newChecked, outputSliceLength.trans sliceLength.symm, fun idx entry inSlice => ?_⟩
    have small := (List.getElem?_eq_some_iff.mp inSlice).1.trans_eq sliceLength
    obtain ⟨other, out, otherFound, outFound, res⟩ := sliced idx small
    cases inSlice.symm.trans otherFound
    exact ⟨out, outFound, res.trans (congrArg Except.ok ((addPtr_eq_iff out _).mpr zero))⟩

theorem Advances.single : Advances [entry] pointer step :=
  fun oc _ _ _ found => absurd (List.getElem?_eq_some_iff.mp found).1 (not_lt.mpr oc.succ_pos)

theorem Advances.cons {first second : Entry} {rest : Table}
    (start : pointer second - pointer first = step)
    (advances : Advances (second :: rest) pointer step) :
    Advances (first :: second :: rest) pointer step := by
  intro oc one other foundOne foundOther
  cases oc with
  | zero =>
    cases foundOne
    cases foundOther
    exact start
  | succ oc => exact advances oc one other foundOne foundOther

/-- Four channels with a step of the weights pointers and none of the sparsity pointers. -/
def steadyTable (step : Int) : Table :=
  [⟨0, 100, 1, 0⟩, ⟨step, 100, 1, 0⟩, ⟨step + step, 100, 1, 0⟩, ⟨step + step + step, 100, 1, 0⟩]

theorem steadyTable_weights (step : Int) : Advances (steadyTable step) Entry.weightsPtr step := by
  refine .cons (sub_zero _) (.cons ?_ (.cons ?_ (.single _)))
  · exact add_sub_cancel_right _ _
  · exact add_sub_cancel_left _ _

theorem steadyTable_sparsity (step : Int) : Advances (steadyTable step) Entry.sparsityPtr 0 :=
  .cons rfl (.cons rfl (.cons rfl (.single _)))

def fourChannels (numElems : List Nat) : RelocateWeightsTable where
  weightsPtr := [100]
  sparsityPtr := 0
  offsets := [0]
  weightsTableSize := 64
  weightsElemBitSize := some 16
  weightsCompression := some ⟨0, numElems, none⟩
  channelOffset := some 0

def lastTwo : SubView := ⟨[2, 0, 0, 0], [2, 1, 1, 4]⟩

def lastTwoChannels (numElems : List Nat) : RelocateWeightsTable where
  weightsPtr := [100]
  sparsityPtr := 0
  offsets := [0]
  weightsTableSize := 32
  weightsElemBitSize := some 16
  weightsCompression := some ⟨0, numElems, none⟩
  channelOffset := some 2

/-- The two channels in front of the slice have the 32 bytes of a step each. -/
theorem relocate_swap_iff_even :
    (lastTwoChannels [3, 4]).transform (lastTwo.transform (steadyTable 32)) =
        .ok (lastTwo.transform [⟨100, 0, 1, 0⟩, ⟨132, 0, 1, 0⟩, ⟨164, 0, 1, 0⟩, ⟨180, 0, 1, 0⟩]) ↔
      Accounted (fourChannels [16, 10, 3, 4]) 2 32 :=
  relocate_swap_iff rfl rfl (.inl rfl) (steadyTable_weights 32) (steadyTable_sparsity 32)
    (by decide) (show prepareRelocateWeightsTableSwap (fourChannels [16, 10, 3, 4]) lastTwo
      [4, 1, 1, 4] = some (lastTwoChannels [3, 4]) from rfl) rfl

/-- The weights of the four channels have 16 bytes each, where a channel offset of two stands for
twice the step of 64 bytes. -/
theorem compressedSlice_not_swapped :
    prepareRelocateWeightsTableSwap (fourChannels [1, 2, 3, 4]) lastTwo [4, 1, 1, 4] =
        some (lastTwoChannels [3, 4]) ∧
      Clusters (fourChannels [1, 2, 3, 4]).offsets ∧
      Advances (steadyTable 64) Entry.weightsPtr 64 ∧
      Advances (steadyTable 64) Entry.sparsityPtr 0 ∧
      ((fourChannels [1, 2, 3, 4]).transform (steadyTable 64)).map lastTwo.transform =
        .ok [⟨132, 0, 1, 0⟩, ⟨148, 0, 1, 0⟩] ∧
      (lastTwoChannels [3, 4]).transform (lastTwo.transform (steadyTable 64)) =
        .ok [⟨228, 0, 1, 0⟩, ⟨244, 0, 1, 0⟩] :=
  ⟨rfl, .inl rfl, steadyTable_weights 64, steadyTable_sparsity 64, rfl, rfl⟩

/-! ### Windows -/

open List Nat Run
open ConstTransformations (ElemType ScalarType)

/-! ### Windows -/

inductive Mode
  | CM_CONV
  | DW_CONV
  | POOL
deriving DecidableEq, Repr

inductive SparsityFailure
  | unsupportedKernel (KX : Nat)
  | unsupportedType (actualType : ScalarType)
  | smallWindow (windowSize KX : Nat)
  | outOfRange (dstInd size : Nat)
deriving DecidableEq, Repr

/-- The types of 8 bits, and the two of 16 bits with a fraction. -/
def isSupported : ScalarType → Bool
  | .integer _ width => width = 8
  | .float .f64 => false
  | .float .f32 => false
  | .float _ => true

/-- The values of `mpeNum`, which is doubled up to its limit. -/
def mpeNums : ScalarType → List Nat
  | .float .f16 => [1, 2, 4]
  | _ => [1, 2, 4, 8, 16]

/-- The last window that is no longer than the limit. -/
def maxMpeWindowSize (KX SX maxWindowSize : Nat) (mpeNums : List Nat) : Nat :=
  mpeNums.foldl (fun maxMpe mpeNum =>
    let windowSize := if SX ≤ KX then KX + SX * (mpeNum - 1) else KX * mpeNum
    if windowSize ≤ maxWindowSize then windowSize else maxMpe) 64

def getWindowSize (KX SX : Nat) (elemType : ElemType) : Except SparsityFailure Nat :=
  if 11 < KX then .error (.unsupportedKernel KX)
  else if isSupported elemType.scalarType then
    .ok (maxMpeWindowSize KX SX (32 / (elemType.size / 8)) (mpeNums elemType.scalarType))
  else .error (.unsupportedType elemType.scalarType)

variable (mode : Mode) (KY KX SX : Nat) (elemType : ElemType)

def numOfRepeat (KY IC : Nat) : Nat := if mode = .CM_CONV then KY * IC else KY

def getBitPattern (KY KX windowSize IC : Nat) : Except SparsityFailure (List Nat) :=
  if windowSize < KX then .error (.smallWindow windowSize KX)
  else .ok (List.replicate (numOfRepeat mode KY IC)
    (List.replicate KX 1 ++ List.replicate (windowSize - KX) 0)).flatten

def getBitPatternSize (IC : Nat) : Except SparsityFailure Nat := do
  let windowSize ← getWindowSize KX SX elemType
  if windowSize < KX then throw (.smallWindow windowSize KX)
  return numOfRepeat mode KY IC * windowSize

/-- The bytes of the rows of a channel-major task, which are rounded up to 16. -/
def rowsSparsitySize (KX IC windowSize : Nat) : Nat :=
  (KX * IC * ((windowSize + 7) / 8) + 15) / 16 * 16

def getActivationWindowSize (IC : Nat) : Except SparsityFailure Nat :=
  match mode with
  | .CM_CONV => return rowsSparsitySize KX IC (← getWindowSize KX SX elemType)
  | .DW_CONV | .POOL => return (((← getBitPatternSize mode KY KX SX elemType IC) + 127) / 128 * 16)

/-! ### Packing -/

/-- A byte of the pattern becomes a bit. -/
def repackBit (bitPattern : List Nat) (bytes : List UInt8) (i : Nat) :
    Except SparsityFailure (List UInt8) :=
  let dstInd := i / 128 * 16 + i % 128 / 8
  if dstInd < bytes.length then
    .ok (bytes.modify dstInd (· ||| UInt8.ofNat (bitPattern.getD i 0 <<< (i % 8))))
  else .error (.outOfRange dstInd bytes.length)

def repack (bitPattern : List Nat) (size : Nat) : Except SparsityFailure (List UInt8) :=
  (List.range bitPattern.length).foldlM (repackBit bitPattern) (List.replicate size 0)

/-- The same sizes, from the pattern itself. -/
def perChannelSparsitySize (KX IC windowSize patternSize : Nat) : Nat :=
  match mode with
  | .CM_CONV => rowsSparsitySize KX IC windowSize
  | .DW_CONV | .POOL => (patternSize + 127) / 128 * 16

def getFakeSparsity (IC : Nat) : Except SparsityFailure (List UInt8) := do
  let windowSize ← getWindowSize KX SX elemType
  let bitPattern ← getBitPattern mode KY KX windowSize IC
  repack bitPattern (perChannelSparsitySize mode KX IC windowSize bitPattern.length)

def readBit (bytes : List UInt8) (i : Nat) : Bool :=
  (bytes.getD (i / 128 * 16 + i % 128 / 8) 0).toNat.testBit (i % 8)

theorem destination_eq (i : Nat) : i / 128 * 16 + i % 128 / 8 = i / 8 := by omega

theorem readBit_modify {bytes : List UInt8} {place : Nat} (isSet : Bool)
    (inside : place / 8 < bytes.length) (i : Nat) :
    readBit (bytes.modify (place / 8) (· ||| UInt8.ofNat (isSet.toNat <<< (place % 8)))) i =
      (readBit bytes i || (isSet && decide (i = place))) := by
  have bit : (UInt8.ofNat (isSet.toNat <<< (place % 8))).toNat.testBit (i % 8) =
      (isSet && decide (i % 8 = place % 8)) := by
    cases isSet with
    | false => simp
    | true =>
      rw [Bool.toNat_true, one_shiftLeft, UInt8.toNat_ofNat_of_lt'
        (Nat.pow_lt_pow_right (by decide) (Nat.mod_lt place (by decide))), Nat.testBit_two_pow,
        Bool.true_and]
      exact decide_eq_decide.mpr eq_comm
  unfold readBit
  rw [destination_eq, getD_eq_getElem?_getD, getD_eq_getElem?_getD, getElem?_modify]
  by_cases sameByte : place / 8 = i / 8
  · simp only [← sameByte, getElem?_eq_getElem inside, Option.map_eq_map, Option.map_some,
      if_true, Option.getD_some, UInt8.toNat_or, testBit_or, bit]
    congr 2
    exact decide_eq_decide.mpr ⟨fun same => by omega, fun same => by rw [same]⟩
  · have other : i ≠ place := fun same => sameByte (by rw [same])
    simp only [if_neg sameByte, decide_eq_false other, Bool.and_false, Bool.or_false,
      Option.map_eq_map, Option.map_id']

/-- The first bits are packed if there is a byte for each of them. -/
theorem foldlM_repackBit {bitPattern : List Nat} {isSet : Nat → Bool} (size : Nat) {count : Nat}
    (pattern : ∀ i < count, bitPattern.getD i 0 = (isSet i).toNat) :
    (count ≤ 8 * size → ∃ bytes, (List.range count).foldlM (repackBit bitPattern)
        (List.replicate size 0) = .ok bytes ∧ bytes.length = size ∧
        ∀ i, readBit bytes i = (decide (i < count) && isSet i)) ∧
      (8 * size < count → ∃ failure, (List.range count).foldlM (repackBit bitPattern)
        (List.replicate size 0) = .error failure) := by
  induction count with
  | zero =>
    refine ⟨fun _ => ⟨_, rfl, length_replicate, fun i => ?_⟩, fun less => by omega⟩
    rw [readBit, getD_eq_getElem?_getD, getElem?_getD_replicate_default_eq]
    exact zero_testBit _
  | succ count ih =>
    obtain ⟨packs, fails⟩ := ih fun i less => pattern i (less.trans (lt_succ_self _))
    rw [range_succ, foldlM_append]
    refine ⟨fun enough => ?_, fun less => ?_⟩
    · obtain ⟨bytes, packed, length, bits⟩ := packs (by omega)
      have inside : count / 8 < bytes.length := by omega
      have last : repackBit bitPattern bytes count = .ok _ :=
        if_pos ((destination_eq count).trans_lt inside)
      rw [packed]
      refine ⟨_, (ok_bind last _), ?_, ?_⟩
      · rw [length_modify, length]
      · intro i
        rw [pattern count (lt_succ_self _), destination_eq, readBit_modify _ inside, bits]
        by_cases last : i = count
        · subst last
          simp
        · rw [decide_eq_false last, Bool.and_false, Bool.or_false,
            decide_eq_decide.mpr (Nat.lt_succ_iff_lt_or_eq.trans (or_iff_left last))]
    · by_cases enough : count ≤ 8 * size
      · obtain ⟨bytes, packed, length, -⟩ := packs enough
        have last : repackBit bitPattern bytes count = .error _ :=
          if_neg ((destination_eq count).trans_ge (by omega)).not_gt
        rw [packed]
        exact ⟨_, error_bind last _⟩
      · obtain ⟨failure, failed⟩ := fails (by omega)
        rw [failed]
        exact ⟨failure, rfl⟩

/-! ### Patterns -/

theorem le_maxMpeWindowSize {KX SX maxWindowSize : Nat} {mpeNums : List Nat} (small : KX ≤ 11)
    (pos : ∀ mpeNum ∈ mpeNums, 0 < mpeNum) : KX ≤ maxMpeWindowSize KX SX maxWindowSize mpeNums := by
  refine foldlRecOn _ _ (by omega) fun maxMpe held mpeNum mem => ?_
  have wide : KX ≤ if SX ≤ KX then KX + SX * (mpeNum - 1) else KX * mpeNum := by
    split
    · exact le_add_right _ _
    · exact Nat.le_mul_of_pos_right _ (pos mpeNum mem)
  dsimp only
  generalize (if SX ≤ KX then KX + SX * (mpeNum - 1) else KX * mpeNum) = windowSize at wide ⊢
  split
  · exact wide
  · exact held

theorem getWindowSize_eq {KX : Nat} (SX : Nat) {elemType : ElemType} (small : KX ≤ 11)
    (supported : isSupported elemType.scalarType = true) :
    ∃ windowSize, getWindowSize KX SX elemType = .ok windowSize ∧ KX ≤ windowSize := by
  refine ⟨_, (if_neg small.not_gt).trans (if_pos supported), le_maxMpeWindowSize small ?_⟩
  unfold mpeNums
  split <;> decide

theorem getD_flatten_replicate {repeats KX windowSize : Nat} (wide : KX ≤ windowSize) {i : Nat}
    (inside : i < repeats * windowSize) :
    (List.replicate repeats (List.replicate KX 1 ++
      List.replicate (windowSize - KX) 0)).flatten.getD i 0 =
        (decide (i % windowSize < KX)).toNat := by
  have length : (replicate KX 1 ++ replicate (windowSize - KX) 0).length =
      windowSize := by
    rw [length_append, length_replicate, length_replicate]
    omega
  induction repeats generalizing i with
  | zero => rw [zero_mul] at inside; cases inside
  | succ repeats ih =>
    rw [replicate_succ, flatten_cons]
    by_cases first : i < windowSize
    · rw [getD_append _ _ _ _ (first.trans_eq length.symm), mod_eq_of_lt first,
        getD_eq_getElem?_getD, getElem?_append, length_replicate]
      split
      · rename_i less
        rw [getElem?_replicate, if_pos less, decide_eq_true less]
        rfl
      · rename_i notLess
        rw [getElem?_replicate, decide_eq_false notLess]
        split <;> rfl
    · rw [succ_mul] at inside
      rw [getD_append_right _ _ _ _ (by omega), length, ih (by omega),
        ← mod_eq_sub_mod (not_lt.mp first)]

/-! ### Fake sparsity -/

theorem le_eight_mul (patternSize : Nat) : patternSize ≤ 8 * ((patternSize + 127) / 128 * 16) := by
  omega

/-- The buffer has the size that is asked for elsewhere, and its bits are the windows and zeros
behind them. -/
def RightSparsity (IC : Nat) : Prop :=
  ∃ bytes windowSize, getFakeSparsity mode KY KX SX elemType IC = .ok bytes ∧
    getWindowSize KX SX elemType = .ok windowSize ∧
    getActivationWindowSize mode KY KX SX elemType IC = .ok bytes.length ∧
    ∀ i, readBit bytes i =
      decide (i < numOfRepeat mode KY IC * windowSize ∧ i % windowSize < KX)

theorem rightSparsity_iff_fits {mode : Mode} {KY KX SX IC windowSize : Nat} {elemType : ElemType}
    (isWindow : getWindowSize KX SX elemType = .ok windowSize) (wide : KX ≤ windowSize) :
    RightSparsity mode KY KX SX elemType IC ↔ numOfRepeat mode KY IC * windowSize ≤
      8 * perChannelSparsitySize mode KX IC windowSize (numOfRepeat mode KY IC * windowSize) := by
  set pattern := (replicate (numOfRepeat mode KY IC) (replicate KX 1 ++
    replicate (windowSize - KX) 0)).flatten with isPattern
  have length : numOfRepeat mode KY IC * windowSize = pattern.length := by simp [isPattern, wide]
  rw [length]
  set size := perChannelSparsitySize mode KX IC windowSize pattern.length with isSize
  have computed : getFakeSparsity mode KY KX SX elemType IC = repack pattern size :=
    (ok_bind isWindow _).trans (ok_bind (if_neg wide.not_gt) _)
  have sameSize : getActivationWindowSize mode KY KX SX elemType IC = .ok size := by
    have patternSize : getBitPatternSize mode KY KX SX elemType IC = .ok pattern.length := by
      rw [← length]
      exact (ok_bind isWindow _).trans (if_neg wide.not_gt)
    cases mode with
    | CM_CONV => exact ok_bind isWindow _
    | DW_CONV => exact ok_bind patternSize _
    | POOL => exact ok_bind patternSize _
  have packing := foldlM_repackBit size fun i (less : i < pattern.length) =>
    getD_flatten_replicate wide (less.trans_eq length.symm)
  constructor
  · rintro ⟨bytes, -, ok, -, -, -⟩
    by_contra more
    obtain ⟨failure, failed⟩ := packing.2 (not_le.mp more)
    rw [computed] at ok
    cases ok.symm.trans failed
  · intro fits
    obtain ⟨bytes, packed, isLength, bits⟩ := packing.1 fits
    refine ⟨bytes, windowSize, computed.trans packed, isWindow, isLength ▸ sameSize, fun i => ?_⟩
    rw [bits, length, Bool.decide_and]

/-- The buffer of a channel-major task, which has its size from the columns of the kernel, has room
for the windows of its rows. -/
def HasRoom (IC : Nat) : Prop :=
  mode = .CM_CONV → ∀ windowSize, getWindowSize KX SX elemType = .ok windowSize →
    KY * IC * windowSize ≤ 8 * rowsSparsitySize KX IC windowSize

/-- Only a channel-major task may lack the room. -/
theorem rightSparsity_iff_hasRoom (mode : Mode) (KY : Nat) {KX : Nat} (SX IC : Nat)
    {elemType : ElemType} (small : KX ≤ 11) (supported : isSupported elemType.scalarType = true) :
    RightSparsity mode KY KX SX elemType IC ↔ HasRoom mode KY KX SX elemType IC := by
  obtain ⟨windowSize, isWindow, wide⟩ := getWindowSize_eq SX small supported
  rw [rightSparsity_iff_fits isWindow wide]
  cases mode with
  | CM_CONV =>
    exact ⟨fun fits _ other isOther => by rwa [← Except.ok.inj (isWindow.symm.trans isOther)],
      fun fits => fits rfl _ isWindow⟩
  | DW_CONV => exact iff_of_true (le_eight_mul _) (fun same => by cases same)
  | POOL => exact iff_of_true (le_eight_mul _) (fun same => by cases same)

theorem threeRows_rightSparsity : RightSparsity .CM_CONV 3 3 1 (.scalar (.integer .unsigned 8)) 3 :=
  (rightSparsity_iff_hasRoom .CM_CONV 3 1 3 (by decide) (by decide)).mpr
    fun _ windowSize isWindow => by
      obtain rfl : 18 = windowSize := Except.ok.inj isWindow
      decide

/-- A kernel of one column has more rows than there is room for. -/
theorem elevenRows_not_rightSparsity :
    ¬ RightSparsity .CM_CONV 11 1 1 (.scalar (.integer .unsigned 8)) 3 := by
  have isWindow : getWindowSize 1 1 (.scalar (.integer .unsigned 8)) = .ok 16 := rfl
  exact (rightSparsity_iff_fits isWindow (by decide)).not.mpr (by decide)

end NpuPlugin.WeightsTable
