/-
This file models how the halos that a task writes to other clusters are segmented by its workloads.
A halo is moved to the start of a workload and keeps its extent, which is wrong when the workload
starts and ends behind it on one axis.
-/

import NpuPlugin.Library.Loop
import NpuPlugin.SEAttributes.Model

namespace NpuPlugin.Halos

open Boxes Function List SEAttributes

/-- `HaloRegionAttr` -/
structure HaloRegion (Shape : Type) where
  shape : Shape
  offset : Shape
  clusterId : Nat
deriving DecidableEq

/-- `OutwardHaloRegionAttr` -/
structure OutwardHaloRegion (Shape : Type) where
  shape : Shape
  offset : Shape
  clusterId : Nat
  inwardHaloRegions : List (HaloRegion Shape)
deriving DecidableEq

/-- The first and the last position of a workload on each axis but the batch. -/
structure DPUTask where
  outStart : Shape
  outEnd : Shape

/-- The new halos; no inward halo takes the place of one that is not a key of the map. -/
structure SubstituteHalos where
  outwardHalos : List (OutwardHaloRegion Shape)
  inwardHalos : HaloRegion Shape → List (HaloRegion Shape)

/-- The axes of the positions of a workload, in the order of the arrays that hold them. -/
def workloadDimToHaloDim : List Dim := [.W, .H, .C]

def isHaloInCurrentWorkload (haloStart haloShape : Shape) (task : DPUTask) : Bool :=
  workloadDimToHaloDim.all fun haloDim =>
    let haloEnd := haloStart haloDim + haloShape haloDim - 1
    !(decide (haloStart haloDim > task.outEnd haloDim) || decide (haloEnd < task.outStart haloDim))

/-- One turn of the loop that clips the start and the shape of a halo. -/
def clipAxis (task : DPUTask) (halo : Shape × Shape) (haloDim : Dim) : Shape × Shape :=
  let haloStart :=
    if halo.1 haloDim < task.outStart haloDim then
      Function.update halo.1 haloDim (task.outStart haloDim)
    else halo.1
  let haloEnd := haloStart haloDim + halo.2 haloDim - 1
  let haloShape :=
    if haloEnd > task.outEnd haloDim then
      Function.update halo.2 haloDim (task.outEnd haloDim - haloStart haloDim + 1)
    else halo.2
  (haloStart, haloShape)

def clipped (outwardHalo : OutwardHaloRegion Shape) (task : DPUTask) : Shape × Shape :=
  workloadDimToHaloDim.foldl (clipAxis task) (outwardHalo.offset, outwardHalo.shape)

def newInwardHalo (outwardHalo : OutwardHaloRegion Shape) (task : DPUTask)
    (inwardHalo : HaloRegion Shape) : HaloRegion Shape where
  shape := (clipped outwardHalo task).2
  offset := inwardHalo.offset + ((clipped outwardHalo task).1 - outwardHalo.offset)
  clusterId := inwardHalo.clusterId

def newOutwardHalo (outwardHalo : OutwardHaloRegion Shape) (task : DPUTask) :
    OutwardHaloRegion Shape where
  shape := (clipped outwardHalo task).2
  offset := (clipped outwardHalo task).1
  clusterId := outwardHalo.clusterId
  inwardHaloRegions := outwardHalo.inwardHaloRegions.map (newInwardHalo outwardHalo task)

def computeNewOutwardInwardHalos (newHalos : SubstituteHalos)
    (outwardHalo : OutwardHaloRegion Shape) (task : DPUTask) : SubstituteHalos where
  inwardHalos := outwardHalo.inwardHaloRegions.foldl
    (fun inwardHalos inwardHalo => Function.update inwardHalos inwardHalo
      (inwardHalos inwardHalo ++ [newInwardHalo outwardHalo task inwardHalo]))
    newHalos.inwardHalos
  outwardHalos := newHalos.outwardHalos ++ [newOutwardHalo outwardHalo task]

def segmentHalos (outwardHaloRegions : List (OutwardHaloRegion Shape)) (dpuTasks : List DPUTask) :
    SubstituteHalos :=
  outwardHaloRegions.foldl
    (fun newHalos outwardHalo =>
      dpuTasks.foldl
        (fun newHalos task =>
          if !isHaloInCurrentWorkload outwardHalo.offset outwardHalo.shape task then newHalos
          else computeNewOutwardInwardHalos newHalos outwardHalo task)
        newHalos)
    ⟨[], fun _ => []⟩

/-! ### What is asked of the segments -/

/-- The positions of a halo in the buffer of its cluster. -/
def OutwardHaloRegion.Contains (halo : OutwardHaloRegion Shape) (point : Shape) : Prop :=
  Inside halo.shape (point - halo.offset)

instance (halo : OutwardHaloRegion Shape) (point : Shape) : Decidable (halo.Contains point) :=
  inferInstanceAs (Decidable (Inside _ _))

def DPUTask.Contains (task : DPUTask) (point : Shape) : Prop :=
  ∀ dim ∈ workloadDimToHaloDim, task.outStart dim ≤ point dim ∧ point dim ≤ task.outEnd dim

/-- What one outward halo becomes. -/
def segmented (dpuTasks : List DPUTask) (halo : OutwardHaloRegion Shape) :
    List (OutwardHaloRegion Shape) :=
  (segmentHalos [halo] dpuTasks).outwardHalos

/-- The box of a segment in the buffer of another cluster. -/
def shifted (halo segment : OutwardHaloRegion Shape) (inwardHalo : HaloRegion Shape) :
    HaloRegion Shape :=
  ⟨segment.shape, segment.offset + (inwardHalo.offset - halo.offset), inwardHalo.clusterId⟩

def HasPart (halo : OutwardHaloRegion Shape) (task : DPUTask) : Prop :=
  ∃ point, halo.Contains point ∧ task.Contains point

/-- The segments are the intersections of a halo with the workloads that have a part of it. -/
structure Cut (dpuTasks : List DPUTask) (halo : OutwardHaloRegion Shape)
    (segments : List (OutwardHaloRegion Shape)) : Prop where
  intersections : ∃ met, met.Sublist dpuTasks ∧
    (∀ task ∈ dpuTasks, task ∈ met ↔ HasPart halo task) ∧
    Forall₂ (fun task segment => ∀ point, segment.Contains point ↔
      halo.Contains point ∧ task.Contains point) met segments
  disjoint : segments.Pairwise fun first second =>
    ∀ point, ¬ (first.Contains point ∧ second.Contains point)
  inside : ∀ segment ∈ segments,
    (∃ task ∈ dpuTasks, ∀ point, segment.Contains point → task.Contains point) ∧
      ∀ point, segment.Contains point → halo.Contains point
  covers : ∀ point, halo.Contains point → ∃ segment ∈ segments, segment.Contains point
  inward : ∀ segment ∈ segments, segment.clusterId = halo.clusterId ∧
    segment.inwardHaloRegions = halo.inwardHaloRegions.map (shifted halo segment)

/-- On every axis a workload starts no later than a halo, or ends no later. -/
def Aligned (halo : OutwardHaloRegion Shape) (task : DPUTask) : Prop :=
  ∀ dim ∈ workloadDimToHaloDim, task.outStart dim ≤ halo.offset dim ∨
    task.outEnd dim < halo.offset dim + halo.shape dim

instance (halo : OutwardHaloRegion Shape) (task : DPUTask) : Decidable (Aligned halo task) :=
  inferInstanceAs (Decidable (∀ dim ∈ workloadDimToHaloDim, _))

/-! ### The loops -/

variable {dpuTasks : List DPUTask} {task : DPUTask} {halo : OutwardHaloRegion Shape}

theorem newInwardHalo_eq (inwardHalo : HaloRegion Shape) :
    newInwardHalo halo task inwardHalo = shifted halo (newOutwardHalo halo task) inwardHalo :=
  congrArg (HaloRegion.mk _ · _) (add_sub_left_comm ..)

def met (dpuTasks : List DPUTask) (halo : OutwardHaloRegion Shape) : List DPUTask :=
  dpuTasks.filter (isHaloInCurrentWorkload halo.offset halo.shape)

theorem inwardHalos_compute (newHalos : SubstituteHalos) (key : HaloRegion Shape) :
    (computeNewOutwardInwardHalos newHalos halo task).inwardHalos key =
      newHalos.inwardHalos key ++
        (halo.inwardHaloRegions.filter (· = key)).map
          (shifted halo (newOutwardHalo halo task)) := by
  unfold computeNewOutwardInwardHalos
  generalize newHalos.inwardHalos = inwardHalos
  induction halo.inwardHaloRegions generalizing inwardHalos with
  | nil => exact (append_nil _).symm
  | cons region rest ih =>
    rw [foldl_cons, ih]
    by_cases same : region = key
    · subst same
      rw [update_self, filter_cons, if_pos (decide_eq_true rfl), map_cons,
        append_assoc, newInwardHalo_eq]
      rfl
    · rw [update_of_ne (Ne.symm same), filter_cons_of_neg (by simpa using same)]

theorem gathered_tasks {Entry : Type} (gathered : SubstituteHalos → List Entry)
    {entries : DPUTask → List Entry} (newHalos : SubstituteHalos)
    (each : ∀ task newHalos, gathered (computeNewOutwardInwardHalos newHalos halo task) =
      gathered newHalos ++ entries task) :
    gathered (dpuTasks.foldl
        (fun newHalos task =>
          if !isHaloInCurrentWorkload halo.offset halo.shape task then newHalos
          else computeNewOutwardInwardHalos newHalos halo task)
        newHalos) =
      gathered newHalos ++ (met dpuTasks halo).flatMap entries := by
  unfold met
  induction dpuTasks generalizing newHalos with
  | nil => exact (append_nil _).symm
  | cons task rest ih =>
    rw [foldl_cons, ih]
    cases inside : isHaloInCurrentWorkload halo.offset halo.shape task with
    | false => rw [filter_cons_of_neg (by simp [inside])]; rfl
    | true =>
      rw [filter_cons_of_pos inside, flatMap_cons, ← append_assoc, ← each]
      rfl

theorem outwardHalos_segmentHalos (halos : List (OutwardHaloRegion Shape)) :
    (segmentHalos halos dpuTasks).outwardHalos =
      halos.flatMap fun halo => (met dpuTasks halo).map (newOutwardHalo halo) := by
  refine (foldl_gathers SubstituteHalos.outwardHalos halos _ fun halo _ newHalos => ?_).trans
    (nil_append _)
  rw [map_eq_flatMap]
  exact gathered_tasks _ newHalos fun task newHalos => rfl

theorem segmented_eq : segmented dpuTasks halo = (met dpuTasks halo).map (newOutwardHalo halo) :=
  (outwardHalos_segmentHalos [halo]).trans (append_nil _)

theorem inwardHalos_segmentHalos (halos : List (OutwardHaloRegion Shape)) (key : HaloRegion Shape) :
    (segmentHalos halos dpuTasks).inwardHalos key =
      halos.flatMap fun halo => (segmented dpuTasks halo).flatMap fun segment =>
        (halo.inwardHaloRegions.filter (· = key)).map (shifted halo segment) := by
  refine (foldl_gathers (SubstituteHalos.inwardHalos · key) halos _
    fun halo _ newHalos => ?_).trans (nil_append _)
  rw [segmented_eq, flatMap_map]
  exact gathered_tasks (SubstituteHalos.inwardHalos · key) newHalos fun task newHalos =>
    inwardHalos_compute newHalos key

/-! ### One segment -/

theorem clipAxis_eq (clipped : Shape × Shape) (dim : Dim) :
    clipAxis task clipped dim =
      (Function.update clipped.1 dim (max (clipped.1 dim) (task.outStart dim)),
        Function.update clipped.2 dim (min (clipped.2 dim)
          (task.outEnd dim - max (clipped.1 dim) (task.outStart dim) + 1))) := by
  have moved : (if clipped.1 dim < task.outStart dim then
        update clipped.1 dim (task.outStart dim) else clipped.1) =
      update clipped.1 dim (max (clipped.1 dim) (task.outStart dim)) := by
    split
    · rw [max_eq_right (by omega)]
    · rw [max_eq_left (by omega), update_eq_self]
  unfold clipAxis
  dsimp only
  rw [moved, update_self]
  refine congrArg (Prod.mk _) ?_
  split
  · rw [min_eq_right (by omega)]
  · rw [min_eq_left (by omega), update_eq_self]

theorem newOutwardHalo_batch :
    (newOutwardHalo halo task).offset .N = halo.offset .N ∧
      (newOutwardHalo halo task).shape .N = halo.shape .N := by
  simp [newOutwardHalo, clipped, workloadDimToHaloDim, clipAxis_eq]

theorem newOutwardHalo_at {dim : Dim} (tiled : dim ∈ workloadDimToHaloDim) :
    (newOutwardHalo halo task).offset dim = max (halo.offset dim) (task.outStart dim) ∧
      (newOutwardHalo halo task).shape dim = min (halo.shape dim)
        (task.outEnd dim - max (halo.offset dim) (task.outStart dim) + 1) := by
  cases dim with
  | N => exact absurd tiled (by decide)
  | C | H | W => simp [newOutwardHalo, clipped, workloadDimToHaloDim, clipAxis_eq]

theorem eq_batch_or (dim : Dim) : dim = .N ∨ dim ∈ workloadDimToHaloDim := by cases dim <;> decide

theorem newOutwardHalo_contains_iff (aligned : Aligned halo task) (point : Shape) :
    (newOutwardHalo halo task).Contains point ↔ halo.Contains point ∧ task.Contains point := by
  have clipped : ∀ dim ∈ workloadDimToHaloDim,
      (0 ≤ (point - (newOutwardHalo halo task).offset) dim ∧
        (point - (newOutwardHalo halo task).offset) dim < (newOutwardHalo halo task).shape dim) ↔
      (0 ≤ (point - halo.offset) dim ∧ (point - halo.offset) dim < halo.shape dim) ∧
        task.outStart dim ≤ point dim ∧ point dim ≤ task.outEnd dim := by
    intro dim tiled
    have reach := aligned dim tiled
    rw [Pi.sub_apply, Pi.sub_apply, (newOutwardHalo_at tiled).1, (newOutwardHalo_at tiled).2]
    omega
  have batch : (point - (newOutwardHalo halo task).offset) .N = (point - halo.offset) .N := by
    rw [Pi.sub_apply, Pi.sub_apply, newOutwardHalo_batch.1]
  constructor
  · intro within
    refine ⟨fun dim => ?_, fun dim tiled => ((clipped dim tiled).mp (within dim)).2⟩
    rcases eq_batch_or dim with rfl | tiled
    · have here := within .N
      rw [batch, newOutwardHalo_batch.2] at here
      exact here
    · exact ((clipped dim tiled).mp (within dim)).1
  · rintro ⟨ofHalo, ofTask⟩ dim
    rcases eq_batch_or dim with rfl | tiled
    · rw [batch, newOutwardHalo_batch.2]
      exact ofHalo .N
    · exact (clipped dim tiled).mpr ⟨ofHalo dim, ofTask dim tiled⟩

theorem HasPart.meets (part : HasPart halo task) : ∀ dim ∈ workloadDimToHaloDim,
    halo.offset dim ≤ task.outEnd dim ∧ task.outStart dim < halo.offset dim + halo.shape dim := by
  obtain ⟨point, ofHalo, ofTask⟩ := part
  intro dim tiled
  have here := ofHalo dim
  have there := ofTask dim tiled
  rw [Pi.sub_apply] at here
  omega

section

variable (extents : ∀ dim, 0 < halo.shape dim)
  (ordered : ∀ dim ∈ workloadDimToHaloDim, task.outStart dim ≤ task.outEnd dim)
include extents ordered

theorem newOutwardHalo_nonempty (meets : ∀ dim ∈ workloadDimToHaloDim,
      halo.offset dim ≤ task.outEnd dim ∧ task.outStart dim < halo.offset dim + halo.shape dim)
    (dim : Dim) : 0 < (newOutwardHalo halo task).shape dim := by
  have pos := extents dim
  rcases eq_batch_or dim with rfl | tiled
  · exact newOutwardHalo_batch.2.symm ▸ pos
  · have here := meets dim tiled
    have both := ordered dim tiled
    rw [(newOutwardHalo_at tiled).2]
    omega

theorem isHaloInCurrentWorkload_iff :
    isHaloInCurrentWorkload halo.offset halo.shape task ↔ HasPart halo task := by
  have each : isHaloInCurrentWorkload halo.offset halo.shape task ↔
      ∀ dim ∈ workloadDimToHaloDim, halo.offset dim ≤ task.outEnd dim ∧
        task.outStart dim ≤ halo.offset dim + halo.shape dim - 1 := by
    simp [isHaloInCurrentWorkload]
  rw [each]
  constructor
  · intro meets
    refine ⟨(newOutwardHalo halo task).offset, fun dim => ?_, fun dim tiled => ?_⟩
    · rcases eq_batch_or dim with rfl | tiled
      · rw [Pi.sub_apply, newOutwardHalo_batch.1, sub_self]
        exact ⟨le_rfl, extents .N⟩
      · have pos := extents dim
        have here := meets dim tiled
        rw [Pi.sub_apply, (newOutwardHalo_at tiled).1]
        omega
    · have here := meets dim tiled
      have both := ordered dim tiled
      rw [(newOutwardHalo_at tiled).1]
      omega
  · intro part dim tiled
    have here := part.meets dim tiled
    omega

/-- A segment of a workload that starts and ends behind a halo goes beyond the end of the halo. -/
theorem aligned_of_inside (part : HasPart halo task)
    (inside : ∀ point, (newOutwardHalo halo task).Contains point → halo.Contains point) :
    Aligned halo task := by
  intro dim tiled
  by_contra behind
  have here := part.meets dim tiled
  obtain ⟨coordinate, within, beyond⟩ : ∃ coordinate,
      Inside (newOutwardHalo halo task).shape coordinate ∧
        coordinate dim = halo.offset dim + halo.shape dim - task.outStart dim := by
    refine exists_inside_at (newOutwardHalo_nonempty extents ordered part.meets) (by omega) ?_
    rw [(newOutwardHalo_at tiled).2]
    omega
  have outside := inside (coordinate + (newOutwardHalo halo task).offset)
    (by unfold OutwardHaloRegion.Contains; rwa [add_sub_cancel_right]) dim
  rw [Pi.sub_apply, Pi.add_apply, beyond, (newOutwardHalo_at tiled).1] at outside
  omega

end

section

variable (halos : List (OutwardHaloRegion Shape))
  (extents : ∀ halo ∈ halos, ∀ dim, 0 < halo.shape dim)
  (ordered : ∀ task ∈ dpuTasks, ∀ dim ∈ workloadDimToHaloDim, task.outStart dim ≤ task.outEnd dim)
include extents ordered

theorem cut_segmented (apart : dpuTasks.Pairwise fun first second =>
      ∀ point, ¬ (first.Contains point ∧ second.Contains point))
    (covered : ∀ halo ∈ halos, ∀ point, halo.Contains point →
      ∃ task ∈ dpuTasks, task.Contains point) (mem : halo ∈ halos)
    (aligned : ∀ task ∈ dpuTasks, HasPart halo task → Aligned halo task) :
    Cut dpuTasks halo (segmented dpuTasks halo) := by
  have met_iff : ∀ task ∈ dpuTasks, task ∈ met dpuTasks halo ↔ HasPart halo task := by
    intro task ofTasks
    rw [met, mem_filter, isHaloInCurrentWorkload_iff (extents halo mem) (ordered task ofTasks)]
    exact and_iff_right ofTasks
  have parts : ∀ task ∈ met dpuTasks halo, ∀ point, (newOutwardHalo halo task).Contains point ↔
      halo.Contains point ∧ task.Contains point := by
    intro task ofMet
    have ofTasks := mem_of_mem_filter ofMet
    exact newOutwardHalo_contains_iff (aligned task ofTasks ((met_iff task ofTasks).mp ofMet))
  rw [segmented_eq]
  refine ⟨⟨_, filter_sublist, met_iff, ?_⟩, ?_, ?_, ?_, ?_⟩
  · exact forall₂_map_right_iff.mpr (forall₂_same.mpr parts)
  · refine pairwise_map.mpr (((apart.sublist filter_sublist).imp_of_mem ?_))
    intro first second ofFirst ofSecond never point both
    exact never point ⟨((parts first ofFirst point).mp both.1).2,
      ((parts second ofSecond point).mp both.2).2⟩
  · intro piece ofPieces
    obtain ⟨task, ofMet, rfl⟩ := mem_map.mp ofPieces
    exact ⟨⟨task, mem_of_mem_filter ofMet,
        fun point within => ((parts task ofMet point).mp within).2⟩,
      fun point within => ((parts task ofMet point).mp within).1⟩
  · intro point within
    obtain ⟨task, ofTasks, inside⟩ := covered halo mem point within
    have ofMet := (met_iff task ofTasks).mpr ⟨point, within, inside⟩
    exact ⟨_, mem_map_of_mem ofMet, (parts task ofMet point).mpr ⟨within, inside⟩⟩
  · intro piece ofPieces
    obtain ⟨task, ofMet, rfl⟩ := mem_map.mp ofPieces
    exact ⟨rfl, map_congr_left fun inwardHalo _ => newInwardHalo_eq inwardHalo⟩

theorem aligned_of_cut (mem : halo ∈ halos) (cut : Cut dpuTasks halo (segmented dpuTasks halo)) :
    ∀ task ∈ dpuTasks, HasPart halo task → Aligned halo task := by
  intro task ofTasks meets
  have ofMet : task ∈ met dpuTasks halo := mem_filter.mpr ⟨ofTasks,
    (isHaloInCurrentWorkload_iff (extents halo mem) (ordered task ofTasks)).mpr meets⟩
  refine aligned_of_inside (extents halo mem) (ordered task ofTasks) meets
    (cut.inside (newOutwardHalo halo task) ?_).2
  rw [segmented_eq]
  exact mem_map_of_mem ofMet

/-- The halos are segmented one by one, and each is cut into its intersections with the workloads
exactly when those that have a part of it are aligned with it. -/
theorem segmentHalos_cuts_iff (apart : dpuTasks.Pairwise fun first second =>
      ∀ point, ¬ (first.Contains point ∧ second.Contains point))
    (covered : ∀ halo ∈ halos, ∀ point, halo.Contains point →
      ∃ task ∈ dpuTasks, task.Contains point) :
    (segmentHalos halos dpuTasks).outwardHalos = halos.flatMap (segmented dpuTasks) ∧
      (∀ key, (segmentHalos halos dpuTasks).inwardHalos key =
        halos.flatMap fun halo => (segmented dpuTasks halo).flatMap fun segment =>
          (halo.inwardHaloRegions.filter (· = key)).map (shifted halo segment)) ∧
      ((∀ halo ∈ halos, Cut dpuTasks halo (segmented dpuTasks halo)) ↔
        ∀ halo ∈ halos, ∀ task ∈ dpuTasks, HasPart halo task → Aligned halo task) := by
  refine ⟨?_, inwardHalos_segmentHalos halos, fun cut halo mem => ?_, fun aligned halo mem => ?_⟩
  · rw [outwardHalos_segmentHalos]
    exact flatMap_congr fun halo _ => segmented_eq.symm
  · exact aligned_of_cut halos extents ordered mem (cut halo mem)
  · exact cut_segmented halos extents ordered apart covered mem (aligned halo mem)

end

/-- Rows 2 to 5, which go to rows 6 to 9 of the next cluster. -/
def middleRows : OutwardHaloRegion Shape :=
  ⟨Shape.of 1 16 4 8, Shape.of 0 0 2 0, 0, [⟨Shape.of 1 16 4 8, Shape.of 0 0 6 0, 1⟩]⟩

def rowWorkload (first last : Int) : DPUTask := ⟨Shape.of 0 0 first 0, Shape.of 0 15 last 7⟩

theorem rowWorkloads_apart (last : Int) :
    [rowWorkload 0 3, rowWorkload 4 last].Pairwise fun first second =>
      ∀ point, ¬ (first.Contains point ∧ second.Contains point) := by
  refine pairwise_pair.mpr fun point both => ?_
  have upper := (both.1 .H (by decide)).2
  have lower := (both.2 .H (by decide)).1
  exact absurd (lower.trans upper) (by decide : ¬ (4 : Int) ≤ 3)

theorem rowWorkloads_cover {last : Int} (enough : 5 ≤ last) :
    ∀ halo ∈ [middleRows], ∀ point, halo.Contains point →
      ∃ task ∈ [rowWorkload 0 3, rowWorkload 4 last], task.Contains point := by
  intro halo mem point within
  rw [mem_singleton.mp mem] at within
  have channel : 0 ≤ point .C - 0 ∧ point .C - 0 < 16 := within .C
  have row : 0 ≤ point .H - 2 ∧ point .H - 2 < 4 := within .H
  have column : 0 ≤ point .W - 0 ∧ point .W - 0 < 8 := within .W
  have inRows : ∀ first last, first ≤ point .H → point .H ≤ last →
      (rowWorkload first last).Contains point := by
    intro first last above below dim tiled
    cases dim with
    | N => exact absurd tiled (by decide)
    | C => exact show 0 ≤ point .C ∧ point .C ≤ 15 by omega
    | H => exact ⟨above, below⟩
    | W => exact show 0 ≤ point .W ∧ point .W ≤ 7 by omega
  rcases le_or_gt (point .H) 3 with above | below
  · exact ⟨_, mem_cons_self, inRows 0 3 (by omega) above⟩
  · exact ⟨_, mem_cons_of_mem _ mem_cons_self, inRows 4 last (by omega) (by omega)⟩

theorem rowWorkloads_cut :
    Cut [rowWorkload 0 3, rowWorkload 4 5] middleRows
      (segmented [rowWorkload 0 3, rowWorkload 4 5] middleRows) := by
  refine (segmentHalos_cuts_iff [middleRows] (by decide) (by decide) (rowWorkloads_apart 5)
    (rowWorkloads_cover le_rfl)).2.2.mpr (fun halo mem task inTasks _ => ?_) _ mem_cons_self
  exact (by decide : ∀ halo ∈ [middleRows], ∀ task ∈ [rowWorkload 0 3, rowWorkload 4 5],
    Aligned halo task) halo mem task inTasks

/-- Rows 4 to 7 of the lower workload are sent instead of rows 4 and 5. -/
theorem rowWorkloads_beyond :
    ¬ ∀ (halos : List (OutwardHaloRegion Shape)) (dpuTasks : List DPUTask),
      (∀ halo ∈ halos, ∀ dim, 0 < halo.shape dim) →
      (∀ task ∈ dpuTasks, ∀ dim ∈ workloadDimToHaloDim, task.outStart dim ≤ task.outEnd dim) →
      (dpuTasks.Pairwise fun first second =>
        ∀ point, ¬ (first.Contains point ∧ second.Contains point)) →
      (∀ halo ∈ halos, ∀ point, halo.Contains point → ∃ task ∈ dpuTasks, task.Contains point) →
      ∀ halo ∈ halos, Cut dpuTasks halo (segmented dpuTasks halo) := by
  intro claim
  have cut := claim [middleRows] [rowWorkload 0 3, rowWorkload 4 7] (by decide) (by decide)
    (rowWorkloads_apart 7) (rowWorkloads_cover (by decide)) middleRows mem_cons_self
  have sent := (cut.inside (newOutwardHalo middleRows (rowWorkload 4 7)) (by decide)).2
    (Shape.of 0 0 7 0)
  exact absurd (sent (by decide)) (by decide)

end NpuPlugin.Halos
