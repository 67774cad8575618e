/-
This file models how a large copy is tiled over planes. The planes of a tile are limited by the size
of one plane that is rounded down to bytes, so that a tile of planes that end within a byte can be
larger than a DMA may be.
-/

import Mathlib.Algebra.BigOperators.Group.List.Basic
import Mathlib.Algebra.Order.Floor.Div

namespace NpuPlugin.CopyTiles

open List Nat

/-- What stops the tiling: a division by zero, "Couldn't split a CopyOp at '{0}' with single plane
size greater than DMA_LIMIT" and "a part of the original shape was not covered by Copy tiles". -/
inductive TilingFault
  | divisionByZero
  | singlePlaneSize
  | notCovered
deriving DecidableEq, Repr

inductive ArchKind
  | NPU37XX
  | NPU40XX

def DMA_LIMIT : Nat := 16 * 1024 * 1024 - 1

def getMaxNumberPlanes : ArchKind → Nat
  | .NPU37XX => 255
  | .NPU40XX => 32767

def getDmaSize (planeBits planes : Nat) : Nat := (planeBits * planes + 7) / 8

def getNumPlanesPerTile (arch : ArchKind) (fullCopySize numPlanesOfFullShape : Nat)
    (allowRecursiveSplit : Bool) : Except TilingFault Nat :=
  if numPlanesOfFullShape = 0 then .error .divisionByZero
  else
    let singlePlaneSize := fullCopySize / numPlanesOfFullShape
    if singlePlaneSize = 0 then .error .divisionByZero
    else
      let desiredPlanesPerTileAmount := DMA_LIMIT / singlePlaneSize
      let desiredPlanesPerTileAmount :=
        if desiredPlanesPerTileAmount = 0 ∧ allowRecursiveSplit then 1
        else desiredPlanesPerTileAmount
      if desiredPlanesPerTileAmount = 0 then .error .singlePlaneSize
      else .ok (min desiredPlanesPerTileAmount (getMaxNumberPlanes arch))

/-- The planes of the tiles, of which the last ones are balanced over the ports. -/
def balancedTiles (numPlanesOfFullShape numPlanesPerTile dmaPortNum : Nat) : List Nat :=
  let planeDivideFactor := (numPlanesOfFullShape + numPlanesPerTile - 1) / numPlanesPerTile
  let needBalanceNum :=
    if planeDivideFactor % dmaPortNum = 0 then dmaPortNum else planeDivideFactor % dmaPortNum
  let tileDimVale := replicate (planeDivideFactor - needBalanceNum) numPlanesPerTile
  let reservedCopySize :=
    numPlanesOfFullShape - (planeDivideFactor - needBalanceNum) * numPlanesPerTile
  let reservedSingleCopySize := reservedCopySize / dmaPortNum
  let reservedSingleCopyBiasNum := reservedCopySize % dmaPortNum
  tileDimVale ++ replicate reservedSingleCopyBiasNum (reservedSingleCopySize + 1) ++
    if reservedSingleCopySize = 0 then []
    else replicate (dmaPortNum - reservedSingleCopyBiasNum) reservedSingleCopySize

/-- `CopyOpTiling::createTiles`. -/
def createCopyTiles (arch : ArchKind) (dmaPortNum fullCopySize numPlanesOfFullShape : Nat)
    (allowRecursiveSplit : Bool) : Except TilingFault (List Nat) := do
  let numPlanesPerTile ←
    getNumPlanesPerTile arch fullCopySize numPlanesOfFullShape allowRecursiveSplit
  if dmaPortNum = 0 then throw .divisionByZero
  let tileDimVale := balancedTiles numPlanesOfFullShape numPlanesPerTile dmaPortNum
  if tileDimVale.sum = numPlanesOfFullShape then return tileDimVale else throw .notCovered

/-- The planes of the tiles that are made one after the other, and the planes that are left. -/
def evenTiles (numPlanesOfFullShape numPlanesPerTile numTiles : Nat) : List Nat × Nat :=
  (range numTiles).foldl
    (fun tiled _ =>
      let planes := min tiled.2 numPlanesPerTile
      (tiled.1 ++ [planes], tiled.2 - planes))
    ([], numPlanesOfFullShape)

def createNNDMATiles (arch : ArchKind) (fullCopySize numPlanesOfFullShape : Nat) :
    Except TilingFault (List Nat) := do
  let numPlanesPerTile ← getNumPlanesPerTile arch fullCopySize numPlanesOfFullShape false
  let numTiles := numPlanesOfFullShape / numPlanesPerTile +
    if numPlanesOfFullShape % numPlanesPerTile ≠ 0 then 1 else 0
  let tiled := evenTiles numPlanesOfFullShape (numPlanesOfFullShape ⌈/⌉ numTiles) numTiles
  if tiled.2 = 0 then return tiled.1 else throw .notCovered

/-! ### Tiles of a number of planes -/

/-- Tiles that are not empty, the largest of the given number of planes. -/
structure Tiles (planes largest : Nat) (tiles : List Nat) : Prop where
  sum : tiles.sum = planes
  bounds : ∀ tile ∈ tiles, 0 < tile ∧ tile ≤ largest
  attained : largest ∈ tiles

variable {planes perTile ports : Nat}

theorem ceilDiv_eq (pos : 0 < ports) :
    planes ⌈/⌉ ports = planes / ports + if planes % ports ≠ 0 then 1 else 0 := by
  have split := div_add_mod planes ports
  have below := mod_lt planes pos
  have reached := (ceilDiv_le_iff_le_mul pos).mp (le_refl (planes ⌈/⌉ ports))
  refine le_antisymm ((ceilDiv_le_iff_le_mul pos).mpr ?_) ?_
  · rw [mul_add]
    split_ifs <;> omega
  · split_ifs with remains
    · have more : ports * (planes / ports) < ports * (planes ⌈/⌉ ports) := by omega
      exact Nat.lt_of_mul_lt_mul_left more
    · exact Nat.div_le_of_le_mul reached

theorem shared_tiles (some : 0 < planes) (ported : 0 < ports) :
    Tiles planes (planes ⌈/⌉ ports)
      (replicate (planes % ports) (planes / ports + 1) ++
        if planes / ports = 0 then []
        else replicate (ports - planes % ports) (planes / ports)) := by
  have split := div_add_mod planes ports
  have below := mod_lt planes ported
  rw [ceilDiv_eq ported]
  refine ⟨?_, fun tile mem => ?_, ?_⟩
  · split
    · next small =>
      rw [append_nil, sum_replicate, small, smul_eq_mul, zero_add, mul_one]
      rw [small] at split
      omega
    · rw [sum_append, sum_replicate, sum_replicate, smul_eq_mul, smul_eq_mul, mul_succ,
        add_right_comm, ← Nat.add_mul, Nat.add_sub_cancel' below.le, split]
  · rcases mem_append.mp mem with first | last
    · obtain ⟨remains, rfl⟩ := mem_replicate.mp first
      rw [if_pos remains]
      exact ⟨succ_pos _, le_rfl⟩
    · split at last
      · cases last
      · next large =>
        rw [(mem_replicate.mp last).2]
        exact ⟨pos_of_ne_zero large, le_add_right _ _⟩
  · split_ifs with small remains remains
    · exact mem_append_left _ (mem_replicate.mpr ⟨remains, rfl⟩)
    · rw [small, not_not.mp remains] at split
      omega
    · exact mem_append_left _ (mem_replicate.mpr ⟨remains, rfl⟩)
    · exact mem_append_right _ (mem_replicate.mpr ⟨by omega, rfl⟩)

theorem needBalanceNum_spec {factor : Nat} (some : 0 < factor) (ported : 0 < ports) :
    let needed := if factor % ports = 0 then ports else factor % ports
    0 < needed ∧ needed ≤ ports ∧ needed ≤ factor ∧ (needed = factor ∨ ports < factor) := by
  split
  · next whole =>
    have least := le_of_dvd some (dvd_of_mod_eq_zero whole)
    exact ⟨ported, le_rfl, least, least.eq_or_lt⟩
  · next remains =>
    refine ⟨pos_of_ne_zero remains, (mod_lt _ ported).le, mod_le _ _, ?_⟩
    rcases lt_trichotomy factor ports with less | rfl | greater
    · exact .inl (mod_eq_of_lt less)
    · exact absurd (mod_self _) remains
    · exact .inr greater

theorem balancedTiles_tiles (some : 0 < planes) (pos : 0 < perTile) (ported : 0 < ports) :
    Tiles planes (min perTile (planes ⌈/⌉ ports)) (balancedTiles planes perTile ports) := by
  unfold balancedTiles
  dsimp only
  rw [← Nat.ceilDiv_eq_add_pred_div]
  have covered : planes ≤ perTile * (planes ⌈/⌉ perTile) := (ceilDiv_le_iff_le_mul pos).mp le_rfl
  have least : ∀ number, planes ≤ perTile * number → planes ⌈/⌉ perTile ≤ number := fun number =>
    (ceilDiv_le_iff_le_mul pos).mpr
  generalize planes ⌈/⌉ perTile = factor at covered least
  have factor_pos : 0 < factor := Nat.pos_of_ne_zero fun none => by
    rw [none, mul_zero] at covered
    omega
  obtain ⟨needed_pos, ofPorts, ofFactor, all⟩ := needBalanceNum_spec factor_pos ported
  generalize (if factor % ports = 0 then ports else factor % ports) = needed at *
  have whole : (factor - needed) * perTile + needed * perTile = factor * perTile := by
    rw [← Nat.add_mul, Nat.sub_add_cancel ofFactor]
  have fewer : (factor - needed) * perTile < planes := by
    by_contra reached
    have bound := least (factor - needed) (by rw [mul_comm]; exact not_lt.mp reached)
    omega
  have reserved : planes - (factor - needed) * perTile ≤ ports * perTile := by
    have bound := Nat.mul_le_mul_right perTile ofPorts
    rw [mul_comm perTile] at covered
    omega
  have tail := shared_tiles (Nat.sub_pos_of_lt fewer) ported
  rw [append_assoc]
  rcases all with rfl | large
  · rw [Nat.sub_self, zero_mul, Nat.sub_zero] at tail reserved ⊢
    rw [min_eq_right ((ceilDiv_le_iff_le_mul ported).mpr reserved)]
    exact tail
  · have most : perTile ≤ planes ⌈/⌉ ports := by
      have more : perTile * ports < planes := not_le.mp (mt (least ports) large.not_ge)
      rw [mul_comm] at more
      have bound : planes ≤ ports * (planes ⌈/⌉ ports) := (ceilDiv_le_iff_le_mul ported).mp le_rfl
      exact (Nat.lt_of_mul_lt_mul_left (more.trans_le bound)).le
    rw [min_eq_left most]
    refine ⟨?_, fun tile mem => ?_, ?_⟩
    · rw [sum_append, tail.sum, sum_replicate, smul_eq_mul, Nat.add_sub_cancel' fewer.le]
    · rcases mem_append.mp mem with first | last
      · rw [(mem_replicate.mp first).2]
        exact ⟨pos, le_rfl⟩
      · have bounds := tail.bounds tile last
        exact ⟨bounds.1, bounds.2.trans ((ceilDiv_le_iff_le_mul ported).mpr reserved)⟩
    · exact mem_append_left _ (mem_replicate.mpr ⟨by omega, rfl⟩)

theorem evenTiles_tiles {count : Nat} (pos : 0 < perTile) (some : 0 < count)
    (fits : perTile ≤ planes) (enough : planes ≤ perTile * count)
    (fewer : perTile * (count - 1) < planes) :
    (evenTiles planes perTile count).2 = 0 ∧
      Tiles planes perTile (evenTiles planes perTile count).1 := by
  have run : ∀ turns ≤ count, (evenTiles planes perTile turns).2 = planes - perTile * turns ∧
      (evenTiles planes perTile turns).1.sum + (evenTiles planes perTile turns).2 = planes ∧
      (∀ tile ∈ (evenTiles planes perTile turns).1, 0 < tile ∧ tile ≤ perTile) ∧
      (0 < turns → perTile ∈ (evenTiles planes perTile turns).1) := by
    intro turns
    induction turns with
    | zero => exact fun _ => ⟨rfl, zero_add _, fun tile mem => (not_mem_nil mem).elim,
        fun none => absurd none (lt_irrefl 0)⟩
    | succ turns ih =>
      intro inside
      obtain ⟨left, sum, bounds, first⟩ := ih (le_of_succ_le inside)
      have before : perTile * turns ≤ perTile * (count - 1) :=
        Nat.mul_le_mul_left _ (le_sub_one_of_lt inside)
      have next : evenTiles planes perTile (turns + 1) =
          ((evenTiles planes perTile turns).1 ++ [min (evenTiles planes perTile turns).2 perTile],
            (evenTiles planes perTile turns).2 -
              min (evenTiles planes perTile turns).2 perTile) := by
        unfold evenTiles
        rw [range_succ, foldl_append, foldl_cons, foldl_nil]
      rw [next]
      refine ⟨?_, ?_, fun tile mem => ?_, fun _ => ?_⟩
      · rw [left, mul_succ]
        omega
      · rw [sum_append, sum_singleton]
        omega
      · rcases mem_append.mp mem with old | new
        · exact bounds tile old
        · rw [mem_singleton.mp new]
          omega
      · rcases Nat.eq_zero_or_pos turns with rfl | later
        · exact mem_singleton.mpr (min_eq_right fits).symm
        · exact mem_append_left _ (first later)
  obtain ⟨left, sum, bounds, first⟩ := run count le_rfl
  have none : (evenTiles planes perTile count).2 = 0 := by omega
  exact ⟨none, by omega, bounds, first some⟩

/-- The tiles are as many as before when their planes are shared evenly. -/
theorem adjusted_tiles (some : 0 < planes) (pos : 0 < perTile) :
    planes ⌈/⌉ (planes ⌈/⌉ perTile) ≤ perTile ∧
      (evenTiles planes (planes ⌈/⌉ (planes ⌈/⌉ perTile)) (planes ⌈/⌉ perTile)).2 = 0 ∧
      Tiles planes (planes ⌈/⌉ (planes ⌈/⌉ perTile))
        (evenTiles planes (planes ⌈/⌉ (planes ⌈/⌉ perTile)) (planes ⌈/⌉ perTile)).1 := by
  have covered : planes ≤ perTile * (planes ⌈/⌉ perTile) := (ceilDiv_le_iff_le_mul pos).mp le_rfl
  have least : ∀ number, planes ≤ perTile * number → planes ⌈/⌉ perTile ≤ number := fun number =>
    (ceilDiv_le_iff_le_mul pos).mpr
  generalize planes ⌈/⌉ perTile = count at covered least
  have count_pos : 0 < count := Nat.pos_of_ne_zero fun none => by
    rw [none, mul_zero] at covered
    omega
  have enough : planes ≤ count * (planes ⌈/⌉ count) := (ceilDiv_le_iff_le_mul count_pos).mp le_rfl
  have fewer : planes ⌈/⌉ count ≤ perTile :=
    (ceilDiv_le_iff_le_mul count_pos).mpr (by rwa [mul_comm])
  have fits : planes ⌈/⌉ count ≤ planes :=
    (ceilDiv_le_iff_le_mul count_pos).mpr (Nat.le_mul_of_pos_left planes count_pos)
  rw [mul_comm] at enough
  have even_pos : 0 < planes ⌈/⌉ count := Nat.pos_of_ne_zero fun none => by
    rw [none, zero_mul] at enough
    omega
  refine ⟨fewer, evenTiles_tiles even_pos count_pos fits enough ?_⟩
  by_contra reached
  have bound := least (count - 1)
    ((not_lt.mp reached).trans (Nat.mul_le_mul_right _ fewer))
  omega

/-! ### The limits -/

/-- The planes of a tile are limited by the size of one plane, rounded down to bytes. -/
def planesLimit (arch : ArchKind) (planeBits planes : Nat) : Nat :=
  min (DMA_LIMIT / (getDmaSize planeBits planes / planes)) (getMaxNumberPlanes arch)

/-- The tiles are made, they are not empty, they cover the planes, and they are not too large. -/
def WithinLimits (arch : ArchKind) (planeBits planes : Nat)
    (res : Except TilingFault (List Nat)) : Prop :=
  ∃ tiles, res = .ok tiles ∧ tiles.sum = planes ∧ ∀ tile ∈ tiles,
    0 < tile ∧ tile ≤ getMaxNumberPlanes arch ∧ getDmaSize planeBits tile ≤ DMA_LIMIT

variable {arch : ArchKind} {planeBits : Nat}

theorem getDmaSize_mono {fewer more : Nat} (ordered : fewer ≤ more) :
    getDmaSize planeBits fewer ≤ getDmaSize planeBits more :=
  Nat.div_le_div_right (Nat.add_le_add_right (Nat.mul_le_mul_left _ ordered) 7)

theorem Tiles.withinLimits_iff {largest : Nat} {tiles : List Nat} (of : Tiles planes largest tiles)
    (few : largest ≤ getMaxNumberPlanes arch) :
    WithinLimits arch planeBits planes (.ok tiles) ↔ getDmaSize planeBits largest ≤ DMA_LIMIT := by
  constructor
  · rintro ⟨_, made, _, within⟩
    cases made
    exact (within largest of.attained).2.2
  · intro small
    exact ⟨tiles, rfl, of.sum, fun tile mem => ⟨(of.bounds tile mem).1,
      (of.bounds tile mem).2.trans few, (getDmaSize_mono (of.bounds tile mem).2).trans small⟩⟩

theorem getNumPlanesPerTile_eq (arch : ArchKind) (some : 0 < planes)
    (single : getDmaSize planeBits 1 ≤ DMA_LIMIT) (allowRecursiveSplit : Bool) :
    getNumPlanesPerTile arch (getDmaSize planeBits planes) planes allowRecursiveSplit =
        (if getDmaSize planeBits planes < planes then .error .divisionByZero
        else .ok (planesLimit arch planeBits planes)) ∧
      (planes ≤ getDmaSize planeBits planes → 0 < planesLimit arch planeBits planes) := by
  have least : getDmaSize planeBits planes / planes ≤ DMA_LIMIT := by
    refine (Nat.div_le_of_le_mul ?_).trans single
    have rounded : planeBits ≤ 8 * getDmaSize planeBits 1 := by
      unfold getDmaSize
      omega
    have scaled := Nat.mul_le_mul_right planes rounded
    rw [mul_assoc, mul_comm (getDmaSize planeBits 1)] at scaled
    unfold getDmaSize at scaled ⊢
    omega
  unfold getNumPlanesPerTile planesLimit
  rw [if_neg some.ne']
  dsimp only
  rcases lt_or_ge (getDmaSize planeBits planes) planes with small | large
  · rw [if_pos small, if_pos (Nat.div_eq_of_lt small)]
    exact ⟨rfl, fun large => absurd large small.not_ge⟩
  · have counted := Nat.div_pos large some
    have desired := Nat.div_pos least counted
    have kept : (if DMA_LIMIT / (getDmaSize planeBits planes / planes) = 0 ∧
          allowRecursiveSplit = true then 1
        else DMA_LIMIT / (getDmaSize planeBits planes / planes)) =
        DMA_LIMIT / (getDmaSize planeBits planes / planes) := if_neg fun both => desired.ne' both.1
    rw [if_neg large.not_gt, if_neg counted.ne', kept, if_neg desired.ne']
    refine ⟨rfl, fun _ => lt_min desired ?_⟩
    cases arch <;> decide

/-- Tiles of planes that are whole bytes are never too large. -/
theorem getDmaSize_of_wholeBytes (arch : ArchKind) (some : 0 < planes) (whole : 8 ∣ planeBits)
    (pos : 0 < planeBits) :
    planes ≤ getDmaSize planeBits planes ∧ ∀ tile ≤ planesLimit arch planeBits planes,
      getDmaSize planeBits tile ≤ DMA_LIMIT := by
  obtain ⟨bytes, rfl⟩ := whole
  have bytes_pos : 0 < bytes := Nat.pos_of_mul_pos_left pos
  have exact : ∀ number, getDmaSize (8 * bytes) number = bytes * number := by
    intro number
    unfold getDmaSize
    rw [mul_assoc]
    omega
  refine ⟨?_, fun tile few => ?_⟩
  · rw [exact]
    exact Nat.le_mul_of_pos_left planes bytes_pos
  · have limit := few.trans (min_le_left _ _)
    rw [exact, Nat.mul_div_cancel _ some] at limit
    rw [exact]
    exact (Nat.mul_le_mul_left _ limit).trans (mul_div_le _ _)

section

variable (arch) (some : 0 < planes) (single : getDmaSize planeBits 1 ≤ DMA_LIMIT)
include some single

theorem createCopyTiles_withinLimits_iff (ported : 0 < ports) (allowRecursiveSplit : Bool) :
    WithinLimits arch planeBits planes
        (createCopyTiles arch ports (getDmaSize planeBits planes) planes allowRecursiveSplit) ↔
      planes ≤ getDmaSize planeBits planes ∧
        getDmaSize planeBits (min (planesLimit arch planeBits planes) (planes ⌈/⌉ ports)) ≤
          DMA_LIMIT := by
  obtain ⟨limited, pos⟩ := getNumPlanesPerTile_eq arch some single allowRecursiveSplit
  unfold createCopyTiles
  rw [limited]
  rcases lt_or_ge (getDmaSize planeBits planes) planes with small | large
  · rw [if_pos small]
    exact iff_of_false (fun made => by obtain ⟨_, made, _⟩ := made; cases made)
      fun both => absurd both.1 small.not_ge
  · rw [if_neg large.not_gt]
    have tiles := balancedTiles_tiles some (pos large) ported
    rw [and_iff_right large, ← tiles.withinLimits_iff ((min_le_left _ _).trans (min_le_right _ _))]
    refine Eq.to_iff (congrArg (WithinLimits arch planeBits planes) ?_)
    refine (if_neg ported.ne').trans (if_pos tiles.sum)

theorem createNNDMATiles_withinLimits_iff :
    WithinLimits arch planeBits planes
        (createNNDMATiles arch (getDmaSize planeBits planes) planes) ↔
      planes ≤ getDmaSize planeBits planes ∧
        getDmaSize planeBits (planes ⌈/⌉ (planes ⌈/⌉ planesLimit arch planeBits planes)) ≤
          DMA_LIMIT := by
  obtain ⟨limited, pos⟩ := getNumPlanesPerTile_eq arch some single false
  unfold createNNDMATiles
  rw [limited]
  rcases lt_or_ge (getDmaSize planeBits planes) planes with small | large
  · rw [if_pos small]
    exact iff_of_false (fun made => by obtain ⟨_, made, _⟩ := made; cases made)
      fun both => absurd both.1 small.not_ge
  · rw [if_neg large.not_gt]
    have limit := pos large
    obtain ⟨fewer, rest, tiles⟩ := adjusted_tiles some limit
    rw [and_iff_right large, ← tiles.withinLimits_iff (fewer.trans (min_le_right _ _))]
    refine Eq.to_iff (congrArg (WithinLimits arch planeBits planes) ?_)
    show (if _ = 0 then _ else _) = _
    rw [← ceilDiv_eq limit]
    exact if_pos rest

/-- Copies are tiled within the limits exactly when a plane is counted in bytes and the largest tile
is not too large, as it is for planes of whole bytes. -/
theorem tiles_withinLimits_iff (ported : 0 < ports) (allowRecursiveSplit : Bool) :
    (WithinLimits arch planeBits planes
        (createCopyTiles arch ports (getDmaSize planeBits planes) planes allowRecursiveSplit) ↔
      planes ≤ getDmaSize planeBits planes ∧
        getDmaSize planeBits (min (planesLimit arch planeBits planes) (planes ⌈/⌉ ports)) ≤
          DMA_LIMIT) ∧
    (WithinLimits arch planeBits planes
        (createNNDMATiles arch (getDmaSize planeBits planes) planes) ↔
      planes ≤ getDmaSize planeBits planes ∧
        getDmaSize planeBits (planes ⌈/⌉ (planes ⌈/⌉ planesLimit arch planeBits planes)) ≤
          DMA_LIMIT) ∧
    (8 ∣ planeBits → 0 < planeBits → WithinLimits arch planeBits planes
          (createCopyTiles arch ports (getDmaSize planeBits planes) planes allowRecursiveSplit) ∧
        WithinLimits arch planeBits planes
          (createNNDMATiles arch (getDmaSize planeBits planes) planes)) := by
  have copies := createCopyTiles_withinLimits_iff arch some single ported allowRecursiveSplit
  have transfers := createNNDMATiles_withinLimits_iff arch some single
  refine ⟨copies, transfers, fun whole pos => ?_⟩
  obtain ⟨counted, small⟩ := getDmaSize_of_wholeBytes arch some whole pos
  have limit := (getNumPlanesPerTile_eq arch some single false).2 counted
  exact ⟨copies.mpr ⟨counted, small _ (min_le_left _ _)⟩,
    transfers.mpr ⟨counted, small _ (adjusted_tiles some limit).1⟩⟩

end

theorem wholeBytes_within :
    WithinLimits .NPU37XX 64 600
        (createCopyTiles .NPU37XX 2 (getDmaSize 64 600) 600 false) ∧
      WithinLimits .NPU37XX 64 600 (createNNDMATiles .NPU37XX (getDmaSize 64 600) 600) :=
  (tiles_withinLimits_iff .NPU37XX (by decide) (by decide) (by decide) false).2.2 (by decide)
    (by decide)

/-- Six planes of half a byte more than five million bytes are tiled by three. -/
theorem halfBytes_beyond :
    ¬ ∀ (arch : ArchKind) (ports planeBits planes : Nat) (allowRecursiveSplit : Bool), 0 < planes →
      getDmaSize planeBits 1 ≤ DMA_LIMIT → 0 < ports →
        WithinLimits arch planeBits planes
            (createCopyTiles arch ports (getDmaSize planeBits planes) planes allowRecursiveSplit) ∧
          WithinLimits arch planeBits planes
            (createNNDMATiles arch (getDmaSize planeBits planes) planes) := by
  intro claim
  have made := (claim .NPU37XX 1 44739244 6 false (by decide) (by decide) (by decide)).1
  have small := ((createCopyTiles_withinLimits_iff .NPU37XX (by decide) (by decide) (by decide)
    false).mp made).2
  exact absurd small (by decide)

end NpuPlugin.CopyTiles
