/-
This file models how a permute DMA is unrolled to sub-DMAs on the DMA ports and which of them keep
the barriers of its task. On every port a first sub-DMA waits and a last one updates, so where each
port executes in order all of them run between the barriers that the task was between.
-/

import Mathlib.Order.Nat
import NpuPlugin.Library.Loop

namespace NpuPlugin.PermuteDMA

open List

/-- A permute DMA in its task, with the offsets of its buffers and the planes of its descriptor. -/
structure PermuteDMAOp (Barrier : Type) where
  port : Nat
  srcOffset : Nat
  dstOffset : Nat
  numPlanes : Nat
  srcPlaneStride : Nat
  dstPlaneStride : Nat
  waitBarriers : List Barrier
  updateBarriers : List Barrier

/-- The rewriter at an op, with whether the op is on a port of its own already. -/
structure PermuteRewriter (Barrier : Type) where
  dmaPortCount : Nat
  permuteOp : PermuteDMAOp Barrier
  portIsAlreadyAssigned : Bool

/-- The variables of the loop; an op is named by its place among the new ones. -/
structure Unrolling (Barrier : Type) where
  dmaPort : Nat
  srcOffset : Nat
  dstOffset : Nat
  firstPermuteDMAsOnPorts : List Nat
  lastPermuteDMAsOnPorts : List Nat
  newPermuteDMAs : List (PermuteDMAOp Barrier)

variable {Barrier : Type}

/-- One turn of the second loop. -/
def clearBarriers (loop : Unrolling Barrier) (idx : Nat) (dmaOp : PermuteDMAOp Barrier) :
    PermuteDMAOp Barrier :=
  { dmaOp with
    waitBarriers := if idx ∈ loop.firstPermuteDMAsOnPorts then dmaOp.waitBarriers else []
    updateBarriers := if idx ∈ loop.lastPermuteDMAsOnPorts then dmaOp.updateBarriers else [] }

namespace PermuteRewriter

variable (rewriter : PermuteRewriter Barrier) (subInputShapes : List Nat)

/-- One turn of the first loop, for the number of planes of a sub-shape and its index. -/
def unrollSubShape (loop : Unrolling Barrier) (sub : Nat × Nat) : Unrolling Barrier :=
  let ⟨dmaPortCount, permuteOp, portIsAlreadyAssigned⟩ := rewriter
  let newDmaPort := if portIsAlreadyAssigned then permuteOp.port else loop.dmaPort
  { dmaPort := (loop.dmaPort + 1) % dmaPortCount
    srcOffset := loop.srcOffset + sub.1 * permuteOp.srcPlaneStride
    dstOffset := loop.dstOffset + sub.1 * permuteOp.dstPlaneStride
    firstPermuteDMAsOnPorts :=
      if loop.firstPermuteDMAsOnPorts.length < dmaPortCount then
        loop.firstPermuteDMAsOnPorts ++ [sub.2]
      else loop.firstPermuteDMAsOnPorts
    lastPermuteDMAsOnPorts :=
      if loop.firstPermuteDMAsOnPorts.length < dmaPortCount then
        loop.lastPermuteDMAsOnPorts ++ [sub.2]
      else loop.lastPermuteDMAsOnPorts.set newDmaPort sub.2
    newPermuteDMAs := loop.newPermuteDMAs ++ [{ permuteOp with
      port := newDmaPort, srcOffset := loop.srcOffset, dstOffset := loop.dstOffset
      numPlanes := sub.1 }] }

/-- The variables after the first loop. -/
def unrolled : Unrolling Barrier :=
  subInputShapes.zipIdx.foldl rewriter.unrollSubShape
    ⟨0, rewriter.permuteOp.srcOffset, rewriter.permuteOp.dstOffset, [], [], []⟩

def rewritePermuteDMA : List (PermuteDMAOp Barrier) :=
  let loop := rewriter.unrolled subInputShapes
  loop.newPermuteDMAs.mapIdx (clearBarriers loop)

/-- The port of a sub-DMA: the op's own or the next one in turn. -/
def portOf (idx : Nat) : Nat :=
  if rewriter.portIsAlreadyAssigned then rewriter.permuteOp.port else idx % rewriter.dmaPortCount

end PermuteRewriter

/-- The times at which DMAs start and finish and barriers are complete. Each port executes its DMAs
one after the other; what never happens is at the end of time. -/
structure Execution {Time : Type} [Preorder Time] (dmas : List (PermuteDMAOp Barrier))
    (start finish : Nat → Time) (complete : Barrier → Time) : Prop where
  runs : ∀ idx, start idx ≤ finish idx
  waits : ∀ idx, ∀ dma ∈ dmas[idx]?, ∀ barrier ∈ dma.waitBarriers, complete barrier ≤ start idx
  updates : ∀ idx, ∀ dma ∈ dmas[idx]?, ∀ barrier ∈ dma.updateBarriers,
    finish idx ≤ complete barrier
  inOrder : ∀ idx later, idx < later → ∀ dma ∈ dmas[idx]?, ∀ other ∈ dmas[later]?,
    dma.port = other.port → finish idx ≤ start later

/-! ### The loops -/

variable {rewriter : PermuteRewriter Barrier} {count : Nat} {loop : Unrolling Barrier}

/-- What the first loop has made of the sub-shapes before a position. -/
structure Tracked (rewriter : PermuteRewriter Barrier) (count : Nat) (loop : Unrolling Barrier) :
    Prop where
  dmaPort : loop.dmaPort = count % rewriter.dmaPortCount
  firsts : loop.firstPermuteDMAsOnPorts = range (min count rewriter.dmaPortCount)
  lasts : loop.lastPermuteDMAsOnPorts.length = min count rewriter.dmaPortCount
  dmas : (loop.newPermuteDMAs.map fun dma => (dma.port, dma.waitBarriers, dma.updateBarriers)) =
    (range count).map fun idx =>
      (rewriter.portOf idx, rewriter.permuteOp.waitBarriers, rewriter.permuteOp.updateBarriers)
  covered : ∀ idx < count, ∃ later ∈ loop.lastPermuteDMAsOnPorts, idx ≤ later ∧ later < count ∧
    rewriter.portOf later = rewriter.portOf idx
  placed : rewriter.portIsAlreadyAssigned = false →
    (loop.lastPermuteDMAsOnPorts.map (· % rewriter.dmaPortCount)) =
      range (min count rewriter.dmaPortCount)

theorem Tracked.exists_dma (tracked : Tracked rewriter count loop) {idx : Nat}
    (below : idx < count) :
    ∃ dma, (loop.newPermuteDMAs.mapIdx (clearBarriers loop))[idx]? = some dma ∧
      dma.port = rewriter.portOf idx ∧
      (idx ∈ loop.firstPermuteDMAsOnPorts → dma.waitBarriers = rewriter.permuteOp.waitBarriers) ∧
      (idx ∈ loop.lastPermuteDMAsOnPorts →
        dma.updateBarriers = rewriter.permuteOp.updateBarriers) := by
  have same := congrArg (·[idx]?) tracked.dmas
  simp only [getElem?_map, getElem?_range below, Option.map_some] at same
  obtain ⟨dma, found, same⟩ := Option.map_eq_some_iff.mp same
  simp only [Prod.mk.injEq] at same
  refine ⟨_, getElem?_mapIdx.trans (congrArg _ found), same.1, fun first => ?_, fun last => ?_⟩
  · exact (if_pos first).trans same.2.1
  · exact (if_pos last).trans same.2.2

section

variable (ports : 0 < rewriter.dmaPortCount) (assigned : rewriter.portIsAlreadyAssigned = true →
  rewriter.permuteOp.port < rewriter.dmaPortCount)
include ports assigned

theorem Tracked.step (tracked : Tracked rewriter count loop) (planes : Nat) :
    Tracked rewriter (count + 1) (rewriter.unrollSubShape loop (planes, count)) := by
  have newDmaPort : (if rewriter.portIsAlreadyAssigned then rewriter.permuteOp.port
      else loop.dmaPort) = rewriter.portOf count := by
    rw [tracked.dmaPort, PermuteRewriter.portOf]
  have dmaPort : (loop.dmaPort + 1) % rewriter.dmaPortCount =
      (count + 1) % rewriter.dmaPortCount := by
    rw [tracked.dmaPort, Nat.mod_add_mod]
  obtain ⟨-, firsts, lasts, dmas, covered, placed⟩ := tracked
  have grown : ∀ dma : PermuteDMAOp Barrier, (dma.port, dma.waitBarriers, dma.updateBarriers) =
      (rewriter.portOf count, rewriter.permuteOp.waitBarriers, rewriter.permuteOp.updateBarriers) →
      ((loop.newPermuteDMAs ++ [dma]).map fun dma =>
        (dma.port, dma.waitBarriers, dma.updateBarriers)) =
      (range (count + 1)).map fun idx => (rewriter.portOf idx, rewriter.permuteOp.waitBarriers,
        rewriter.permuteOp.updateBarriers) := by
    intro dma same
    rw [map_append, dmas, range_succ, map_append, map_singleton, map_singleton, same]
  rw [PermuteRewriter.unrollSubShape, newDmaPort, firsts, length_range]
  by_cases isFirst : count < rewriter.dmaPortCount
  · rw [min_eq_left isFirst.le] at lasts placed ⊢
    rw [if_pos isFirst, if_pos isFirst]
    have least : min (count + 1) rewriter.dmaPortCount = count + 1 := min_eq_left isFirst
    refine ⟨dmaPort, ?_, ?_, grown _ rfl, fun idx below => ?_, fun unassigned => ?_⟩
    · rw [least, range_succ]
    · rw [length_append, lasts, length_singleton, least]
    · obtain less | rfl := Nat.lt_succ_iff_lt_or_eq.mp below
      · obtain ⟨later, mem, le, before, same⟩ := covered idx less
        exact ⟨later, mem_append_left _ mem, le, before.trans (Nat.lt_succ_self _), same⟩
      · exact ⟨idx, mem_append_right _ (mem_singleton_self idx), le_rfl, below, rfl⟩
    · rw [map_append, placed unassigned, map_singleton, Nat.mod_eq_of_lt isFirst, least, range_succ]
  · have whole := min_eq_right (not_lt.mp isFirst)
    have most : min (count + 1) rewriter.dmaPortCount = rewriter.dmaPortCount :=
      min_eq_right (by omega)
    rw [whole] at lasts placed ⊢
    rw [if_neg (lt_irrefl _), if_neg (lt_irrefl _)]
    have inside : rewriter.portOf count < loop.lastPermuteDMAsOnPorts.length := by
      rw [lasts, PermuteRewriter.portOf]
      split_ifs with already
      · exact assigned already
      · exact Nat.mod_lt count ports
    refine ⟨dmaPort, ?_, ?_, grown _ rfl, fun idx below => ?_, fun unassigned => ?_⟩
    · rw [most]
    · rw [length_set, lasts, most]
    · by_cases same : rewriter.portOf count = rewriter.portOf idx
      · exact ⟨count, mem_set inside count, by omega, Nat.lt_succ_self _, same⟩
      · -- the ports differ, so they are taken in turn and the last one of the port stays
        have less : idx < count := Nat.lt_of_le_of_ne (Nat.le_of_lt_succ below) fun equal =>
          same (equal ▸ rfl)
        obtain ⟨later, mem, le, before, port⟩ := covered idx less
        obtain ⟨place, found⟩ := mem_iff_getElem?.mp mem
        refine ⟨later, mem_of_getElem? ((getElem?_set_ne fun equal => same ?_).trans found), le,
          Nat.lt_succ_of_lt before, port⟩
        rw [← port]
        by_cases already : rewriter.portIsAlreadyAssigned = true
        · rw [PermuteRewriter.portOf, PermuteRewriter.portOf, if_pos already, if_pos already]
        · have turn := congrArg (·[place]?) (placed (Bool.eq_false_iff.mpr already))
          simp only [getElem?_map, found, Option.map_some] at turn
          obtain ⟨_, turn⟩ := List.getElem?_eq_some_iff.mp turn.symm
          rw [equal, PermuteRewriter.portOf, if_neg already, ← turn, getElem_range]
    · rw [PermuteRewriter.portOf, if_neg (Bool.eq_false_iff.mp unassigned), map_set,
        placed unassigned, most]
      have bound : count % rewriter.dmaPortCount < (range rewriter.dmaPortCount).length :=
        length_range.symm ▸ Nat.mod_lt count ports
      have same := set_getElem_self bound
      rwa [getElem_range] at same

theorem tracked_unrolled (subInputShapes : List Nat) :
    Tracked rewriter subInputShapes.length (rewriter.unrolled subInputShapes) := by
  rw [← Nat.zero_add subInputShapes.length]
  refine foldl_zipIdx (Tracked rewriter) subInputShapes 0 _ ?_
    fun idx planes _ loop tracked => tracked.step ports assigned planes
  exact ⟨(Nat.zero_mod _).symm, by rw [Nat.zero_min]; rfl, (Nat.zero_min _).symm, rfl,
    fun _ below => absurd below (Nat.not_lt_zero _), fun _ => by rw [Nat.zero_min]; rfl⟩

/-- On every port one sub-DMA waits no later and one updates no earlier than any other, so that all
are behind the barriers that the task waits for and before those it updates. -/
theorem permuteDMAs_ordered (subInputShapes : List Nat) {Time : Type} [Preorder Time]
    {start finish : Nat → Time} {complete : Barrier → Time}
    (execution : Execution (rewriter.rewritePermuteDMA subInputShapes) start finish complete) :
    (rewriter.rewritePermuteDMA subInputShapes).length = subInputShapes.length ∧
      ∀ idx < subInputShapes.length,
        (∀ barrier ∈ rewriter.permuteOp.waitBarriers, complete barrier ≤ start idx) ∧
        ∀ barrier ∈ rewriter.permuteOp.updateBarriers, finish idx ≤ complete barrier := by
  have tracked := tracked_unrolled ports assigned subInputShapes
  have length := congrArg List.length tracked.dmas
  rw [length_map, length_map, length_range] at length
  refine ⟨length_mapIdx.trans length, fun idx below => ⟨fun barrier mem => ?_,
    fun barrier mem => ?_⟩⟩
  · obtain ⟨earlier, le, first, same⟩ : ∃ earlier ≤ idx, earlier < rewriter.dmaPortCount ∧
        rewriter.portOf earlier = rewriter.portOf idx := by
      by_cases already : rewriter.portIsAlreadyAssigned = true
      · exact ⟨0, Nat.zero_le idx, ports, (if_pos already).trans (if_pos already).symm⟩
      · refine ⟨idx % _, Nat.mod_le .., Nat.mod_lt idx ports, ?_⟩
        exact (if_neg already).trans ((Nat.mod_mod ..).trans (if_neg already).symm)
    obtain ⟨dma, found, own, -⟩ := tracked.exists_dma below
    obtain ⟨other, at_earlier, port, waits, -⟩ := tracked.exists_dma (le.trans_lt below)
    have waited : complete barrier ≤ start earlier := by
      refine execution.waits earlier other at_earlier barrier (waits ?_ ▸ mem)
      rw [tracked.firsts, mem_range]
      exact lt_min (le.trans_lt below) first
    obtain less | rfl := lt_or_eq_of_le le
    · exact waited.trans ((execution.runs earlier).trans (execution.inOrder earlier idx less other
        at_earlier dma found (port.trans (same.trans own.symm))))
    · exact waited
  · obtain ⟨later, listed, ge, before, same⟩ := tracked.covered idx below
    obtain ⟨dma, found, own, -⟩ := tracked.exists_dma below
    obtain ⟨other, at_later, port, -, updates⟩ := tracked.exists_dma before
    have updated : finish later ≤ complete barrier :=
      execution.updates later other at_later barrier (updates listed ▸ mem)
    obtain less | rfl := lt_or_eq_of_le ge
    · exact (execution.inOrder idx later less dma found other at_later
        (own.trans (same.symm.trans port.symm))).trans ((execution.runs later).trans updated)
    · exact updated

end

/-- Five sub-DMAs on the second one of two ports, each of which takes a unit of time. -/
theorem permuteDMAs_ordered_five :
    let rewriter : PermuteRewriter Bool := ⟨2, ⟨1, 0, 0, 5, 16, 2, [true], [false]⟩, true⟩
    let complete := fun barrier : Bool => if barrier then 0 else 5
    Execution (rewriter.rewritePermuteDMA [1, 1, 1, 1, 1]) id (· + 1) complete ∧
      ∀ idx < 5, complete true ≤ idx ∧ idx + 1 ≤ complete false := by
  intro rewriter complete
  have within : ∀ idx < 5, ∀ dma ∈ (rewriter.rewritePermuteDMA [1, 1, 1, 1, 1])[idx]?,
      (∀ barrier ∈ dma.waitBarriers, complete barrier ≤ idx) ∧
      ∀ barrier ∈ dma.updateBarriers, idx + 1 ≤ complete barrier := by decide
  have execution : Execution (rewriter.rewritePermuteDMA [1, 1, 1, 1, 1]) id (· + 1) complete :=
    ⟨Nat.le_succ,
      fun idx dma found => (within idx (List.getElem?_eq_some_iff.mp found).1 dma found).1,
      fun idx dma found => (within idx (List.getElem?_eq_some_iff.mp found).1 dma found).2,
      fun _ _ before _ _ _ _ _ => before⟩
  refine ⟨execution, fun idx below => ?_⟩
  have ordered := (permuteDMAs_ordered (by decide) (fun _ => by decide) _ execution).2 idx below
  exact ⟨ordered.1 true mem_cons_self, ordered.2 false mem_cons_self⟩

end NpuPlugin.PermuteDMA
