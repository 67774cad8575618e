/-
This file is about the search for the number of tiles of a layer. Candidates are checked one by one,
or two at a time, and the search finds the same numbers.
-/

import NpuPlugin.Utils.Numeric

namespace NpuPlugin.Tiling

open Function List Nat Option

inductive TilingMode
  | ISOLATED
  | PIPELINING
  | PREFETCHING
deriving DecidableEq, Repr

abbrev TileCounts := Nat → Nat

/-- A layer, as the search sees it. The dimensions to tile are in the order in which they are tried,
and there is at least one of them. -/
structure HWLayer (Tiles : Type) where
  outputShape : List Int
  maxNumTiles : Nat → Nat
  dimToAlign : Nat
  dimAlignment : Int
  firstDim : Nat
  otherDims : List Nat
  fillDividedTiles : TileCounts → Option Tiles
  isMultiClusterCompatibleForTiling : Tiles → Bool
  isSupportedTileSizeForHWLayer : TileCounts → TilingMode → Bool
  maxNumTiles_pos : ∀ dim, 1 ≤ maxNumTiles dim

/-- Allow uneven tiling over OC, such as OC = 80 can be tiled as three tiles [32, 32, 16] -/
def isSupportedAlignedDivision (dimSize tiles alignment : Int) : Bool :=
  let base := divUp dimSize tiles
  let alignedBase := Signed.alignValUp base alignment
  let remainder := dimSize - alignedBase * (tiles - 1)
  0 < remainder

namespace HWLayer

variable {Tiles : Type} (layer : HWLayer Tiles)

def isDimLeftToTile (curNumTiles : TileCounts) (testTileDim : Nat) : Bool :=
  curNumTiles testTileDim < layer.maxNumTiles testTileDim

/-! ### Steps -/

/-- The number of tiles of the dimension leaves something for the last tile. -/
def isAligned (dim tiles : Nat) : Bool :=
  isSupportedAlignedDivision (layer.outputShape.getD dim 0) tiles layer.dimAlignment

def isAlignedDim (dim : Nat) : Bool := dim = layer.dimToAlign ∧ layer.dimAlignment ≠ 1

/-- The loop of `dimPlus`, which is run at least once. -/
def nextAligned (dim tiles : Nat) : Nat :=
  if ¬ layer.isAligned dim (tiles + 1) ∧ tiles + 1 < layer.maxNumTiles dim then
    nextAligned dim (tiles + 1)
  else tiles + 1
termination_by layer.maxNumTiles dim - tiles

def dimPlus (nTilesOnDim : TileCounts) (dimToTile : Nat) : TileCounts :=
  Function.update nTilesOnDim dimToTile
    (if layer.isAlignedDim dimToTile then layer.nextAligned dimToTile (nTilesOnDim dimToTile)
    else nTilesOnDim dimToTile + 1)

/-- Skip the tiling numbers which are not aligned -/
def previousAligned (dim tiles : Nat) : Nat :=
  if layer.isAlignedDim dim ∧ 1 < tiles ∧ ¬ layer.isAligned dim tiles then
    previousAligned dim (tiles - 1)
  else tiles
termination_by tiles

def dimMinus (nTilesOnDim : TileCounts) (dimToTile : Nat) : TileCounts :=
  Function.update nTilesOnDim dimToTile
    (layer.previousAligned dimToTile (nTilesOnDim dimToTile - 1))

variable {layer} {nTilesOnDim counts : TileCounts} {dim tiles : Nat}

theorem nextAligned_gt (dim tiles : Nat) : tiles < layer.nextAligned dim tiles := by
  induction tiles using nextAligned.induct layer dim with
  | case1 tiles _ ih =>
    rw [nextAligned, if_pos (by assumption)]
    exact (lt_succ_self tiles).trans ih
  | case2 tiles _ =>
    rw [nextAligned, if_neg (by assumption)]
    exact lt_succ_self tiles

theorem nextAligned_le (left : tiles < layer.maxNumTiles dim) :
    layer.nextAligned dim tiles ≤ layer.maxNumTiles dim := by
  induction tiles using nextAligned.induct layer dim with
  | case1 tiles continues ih =>
    rw [nextAligned, if_pos continues]
    exact ih continues.2
  | case2 tiles stops =>
    rw [nextAligned, if_neg stops]
    exact left

theorem dimPlus_gt (nTilesOnDim : TileCounts) (dim : Nat) :
    nTilesOnDim dim < layer.dimPlus nTilesOnDim dim dim := by
  rw [dimPlus, update_self]
  split
  · exact nextAligned_gt dim _
  · exact lt_succ_self _

variable (layer) in
theorem previousAligned_le (dim tiles : Nat) : layer.previousAligned dim tiles ≤ tiles := by
  induction tiles using previousAligned.induct layer dim with
  | case1 tiles skips ih =>
    rw [previousAligned, if_pos skips]
    exact ih.trans (sub_le _ _)
  | case2 tiles stops => rw [previousAligned, if_neg stops]

theorem dimMinus_lt (several : 1 < nTilesOnDim dim) :
    layer.dimMinus nTilesOnDim dim dim < nTilesOnDim dim := by
  rw [dimMinus, update_self]
  have below := previousAligned_le layer dim (nTilesOnDim dim - 1)
  omega

/-! ### Checks -/

variable (layer)

/-- The first of the candidates that is supported, or the last one. -/
def firstSupported (tilingMode : TilingMode) (nTilesOnDim : TileCounts) :
    List TileCounts → Bool × TileCounts
  | [] => (false, nTilesOnDim)
  | candidate :: rest =>
    if layer.isSupportedTileSizeForHWLayer candidate tilingMode then (true, candidate)
    else firstSupported tilingMode candidate rest

/-- There are two checkers. The number of tiles that `dimPlus` provides might be larger than the
maximum, so only legal numbers are checked. -/
def checkSupportedTilingMultithreaded (nTilesOnDim : TileCounts) (dimToTile : Nat)
    (tilingMode : TilingMode) : Bool × TileCounts :=
  let tilingCandidates := [nTilesOnDim, layer.dimPlus nTilesOnDim dimToTile].filter
    fun currTilesOnDim => currTilesOnDim dimToTile ≤ layer.maxNumTiles dimToTile
  layer.firstSupported tilingMode nTilesOnDim tilingCandidates

def checkSupportedTiling (isMultithreadingEnabled : Bool) (nTilesOnDim : TileCounts)
    (dimToTile : Nat) (tilingMode : TilingMode) : Bool × TileCounts :=
  if isMultithreadingEnabled then
    layer.checkSupportedTilingMultithreaded nTilesOnDim dimToTile tilingMode
  else (layer.isSupportedTileSizeForHWLayer nTilesOnDim tilingMode, nTilesOnDim)

variable {layer} {tilingMode : TilingMode} {isMultithreadingEnabled : Bool}

theorem checkSupportedTiling_snd (nTilesOnDim : TileCounts) (dim : Nat) :
    (layer.checkSupportedTiling isMultithreadingEnabled nTilesOnDim dim tilingMode).2 =
        nTilesOnDim ∨
      (layer.checkSupportedTiling isMultithreadingEnabled nTilesOnDim dim tilingMode).2 =
        layer.dimPlus nTilesOnDim dim ∧
          layer.dimPlus nTilesOnDim dim dim ≤ layer.maxNumTiles dim := by
  unfold checkSupportedTiling
  cases isMultithreadingEnabled with
  | false => exact .inl rfl
  | true =>
    rw [if_pos rfl, checkSupportedTilingMultithreaded]
    by_cases second : layer.dimPlus nTilesOnDim dim dim ≤ layer.maxNumTiles dim
    · have first : nTilesOnDim dim ≤ layer.maxNumTiles dim :=
        (dimPlus_gt nTilesOnDim dim).le.trans second
      simp only [filter_cons, first, second, decide_true, if_true, filter_nil, firstSupported]
      split
      · exact .inl rfl
      · split <;> exact .inr ⟨rfl, trivial⟩
    · by_cases first : nTilesOnDim dim ≤ layer.maxNumTiles dim
      · simp only [filter_cons, first, second, decide_true, decide_false, if_true, if_false,
          filter_nil, firstSupported, Bool.false_eq_true]
        split <;> exact .inl rfl
      · simp only [filter_cons, first, second, decide_false, if_false, filter_nil,
          firstSupported, Bool.false_eq_true, true_or]

theorem checkSupportedTiling_ge (nTilesOnDim : TileCounts) (dim : Nat) : nTilesOnDim dim ≤
    (layer.checkSupportedTiling isMultithreadingEnabled nTilesOnDim dim tilingMode).2 dim := by
  rcases checkSupportedTiling_snd nTilesOnDim dim with same | ⟨stepped, -⟩
  · rw [same]
  · rw [stepped]
    exact (dimPlus_gt nTilesOnDim dim).le

/-! ### Loops -/

variable (layer)

/-- The tiles can be divided and are compatible with the clusters. -/
def isCompatible (nTilesOnDim : TileCounts) : Bool :=
  match layer.fillDividedTiles nTilesOnDim with
  | some tiles => layer.isMultiClusterCompatibleForTiling tiles
  | none => false

/-- Decrease the current dimension tiling size until the multicluster strategy is compatible. -/
def decreaseUntilCompatible (nTilesOnDim : TileCounts) (dimToTile : Nat) : TileCounts :=
  if 1 < nTilesOnDim dimToTile ∧ ¬ layer.isCompatible nTilesOnDim then
    decreaseUntilCompatible (layer.dimMinus nTilesOnDim dimToTile) dimToTile
  else nTilesOnDim
termination_by nTilesOnDim dimToTile
decreasing_by exact dimMinus_lt (by rename_i continues; exact continues.1)

/-- The loop over the dimensions from `nextTileDimIter`, with `newTilesOnDim`. -/
def fixNextDims (isMultithreadingEnabled : Bool) (tilingMode : TilingMode)
    (nTilesOnDim newTilesOnDim : TileCounts) : List Nat → TileCounts
  | [] => nTilesOnDim
  | nextDim :: rest =>
    let checked :=
      layer.checkSupportedTiling isMultithreadingEnabled newTilesOnDim nextDim tilingMode
    if checked.1 then Function.update nTilesOnDim nextDim (checked.2 nextDim)
    else if layer.isDimLeftToTile checked.2 nextDim then
      fixNextDims isMultithreadingEnabled tilingMode nTilesOnDim
        (layer.dimPlus checked.2 nextDim) (nextDim :: rest)
    else
      fixNextDims isMultithreadingEnabled tilingMode
        (Function.update nTilesOnDim nextDim (checked.2 nextDim)) checked.2 rest
termination_by dims => (dims.length, match dims with
  | [] => 0
  | nextDim :: _ => layer.maxNumTiles nextDim - newTilesOnDim nextDim)
decreasing_by
  · rename_i left
    have kept : newTilesOnDim nextDim ≤ checked.2 nextDim := checkSupportedTiling_ge _ _
    exact Prod.Lex.right _ (Nat.sub_lt_sub_left (kept.trans_lt (of_decide_eq_true left))
      (kept.trans_lt (dimPlus_gt checked.2 nextDim)))
  · exact Prod.Lex.left _ _ (Nat.lt_succ_self _)

/-- If input or filter is too big, the operation can't be fit into cmx even all the first dim tiled.
So decrease the next dim firstly to make first dim can be tiled exactly. -/
def feasibleNextDim (isMultithreadingEnabled : Bool) (tilingMode : TilingMode)
    (nTilesOnDim : TileCounts) (dimToTile : Nat) : TileCounts :=
  if layer.otherDims.isEmpty then nTilesOnDim
  else
    let newTilesOnDim := layer.decreaseUntilCompatible
      (Function.update nTilesOnDim dimToTile (layer.maxNumTiles dimToTile)) dimToTile
    layer.fixNextDims isMultithreadingEnabled tilingMode nTilesOnDim newTilesOnDim layer.otherDims

/-- Move to next dim if current dim can not go on. There is no result at the end of the order. -/
def moveToNextDim (nTilesOnDim : TileCounts) (dimToTile : Nat) :
    List Nat → Option (TileCounts × Nat × List Nat)
  | [] =>
    if layer.isDimLeftToTile nTilesOnDim dimToTile then some (nTilesOnDim, dimToTile, [])
    else none
  | nextDim :: rest =>
    if layer.isDimLeftToTile nTilesOnDim dimToTile then
      some (nTilesOnDim, dimToTile, nextDim :: rest)
    else moveToNextDim (layer.decreaseUntilCompatible nTilesOnDim dimToTile) nextDim rest

variable {layer}

/-- Where the search moves on to, something is left to tile. Either it does not move, or it is
nearer to the end of the order. -/
theorem moveToNextDim_some {rest rest' : List Nat} {dim' : Nat} {after : TileCounts}
    (moved : layer.moveToNextDim nTilesOnDim dim rest = some (after, dim', rest')) :
    after dim' < layer.maxNumTiles dim' ∧
      ((after = nTilesOnDim ∧ dim' = dim ∧ rest' = rest) ∨ rest'.length < rest.length) := by
  induction rest generalizing nTilesOnDim dim with
  | nil =>
    unfold moveToNextDim at moved
    split at moved
    · rename_i left
      cases moved
      exact ⟨of_decide_eq_true left, .inl ⟨rfl, rfl, rfl⟩⟩
    · cases moved
  | cons nextDim rest ih =>
    unfold moveToNextDim at moved
    split at moved
    · rename_i left
      cases moved
      exact ⟨of_decide_eq_true left, .inl ⟨rfl, rfl, rfl⟩⟩
    · obtain ⟨left, same | nearer⟩ := ih moved
      · refine ⟨left, .inr ?_⟩
        rw [same.2.2]
        exact lt_succ_self _
      · exact ⟨left, .inr (nearer.trans (lt_succ_self _))⟩

variable (layer)

/-- The main loop: the numbers that are supported, if any are found. -/
def searchTiling (isMultithreadingEnabled : Bool) (tilingMode : TilingMode)
    (nTilesOnDim : TileCounts) (dimToTile : Nat) (rest : List Nat) : Option TileCounts :=
  let checked := layer.checkSupportedTiling isMultithreadingEnabled nTilesOnDim dimToTile tilingMode
  if checked.1 then some checked.2
  else
    match _moved : layer.moveToNextDim checked.2 dimToTile rest with
    | none => none
    | some (after, dim, later) =>
      -- Tile current dim to find a proper number
      searchTiling isMultithreadingEnabled tilingMode (layer.dimPlus after dim) dim later
termination_by (rest.length, layer.maxNumTiles dimToTile - nTilesOnDim dimToTile)
decreasing_by
  obtain ⟨left, ⟨same, sameDim, sameRest⟩ | nearer⟩ := moveToNextDim_some _moved
  · subst sameDim sameRest
    have kept : nTilesOnDim dim ≤ after dim := by
      rw [same]
      exact checkSupportedTiling_ge _ _
    exact Prod.Lex.right _ (Nat.sub_lt_sub_left (kept.trans_lt left)
      (kept.trans_lt (dimPlus_gt after dim)))
  · exact Prod.Lex.left _ _ nearer

/-- The next number of tiles that is aligned and leaves something to tile. -/
def nextAlignedLeft (dim tiles : Nat) : Option Nat :=
  if layer.maxNumTiles dim ≤ tiles + 1 then none
  else if ¬ layer.isAligned dim (tiles + 1) then nextAlignedLeft dim (tiles + 1)
  else some (tiles + 1)
termination_by layer.maxNumTiles dim - tiles

theorem nextAlignedLeft_gt {next : Nat} (found : layer.nextAlignedLeft dim tiles = some next) :
    tiles < next ∧ next < layer.maxNumTiles dim := by
  induction tiles using nextAlignedLeft.induct layer dim with
  | case1 tiles none =>
    rw [nextAlignedLeft, if_pos none] at found
    cases found
  | case2 tiles left unaligned ih =>
    rw [nextAlignedLeft, if_neg left, if_pos unaligned] at found
    have later := ih found
    exact ⟨(lt_succ_self tiles).trans later.1, later.2⟩
  | case3 tiles left aligned =>
    rw [nextAlignedLeft, if_neg left, if_neg aligned] at found
    cases found
    exact ⟨lt_succ_self tiles, not_le.mp left⟩

/-- For pipelining, continue to increase on the dimension of isolated tiling. -/
def increaseForPipelining (nTilesOnDim : TileCounts) (targetDim : Nat)
    (prefetchableTilesOnDim : TileCounts) : TileCounts :=
  if layer.isSupportedTileSizeForHWLayer prefetchableTilesOnDim .PIPELINING then
    prefetchableTilesOnDim
  else if 3 * nTilesOnDim targetDim ≤ prefetchableTilesOnDim targetDim ∨
      layer.maxNumTiles targetDim ≤ prefetchableTilesOnDim targetDim then nTilesOnDim
  else if layer.isAlignedDim targetDim then
    match _found : layer.nextAlignedLeft targetDim (prefetchableTilesOnDim targetDim) with
    | none => nTilesOnDim
    | some tiles =>
      increaseForPipelining nTilesOnDim targetDim
        (Function.update prefetchableTilesOnDim targetDim tiles)
  else
    increaseForPipelining nTilesOnDim targetDim
      (Function.update prefetchableTilesOnDim targetDim (prefetchableTilesOnDim targetDim + 1))
termination_by layer.maxNumTiles targetDim - prefetchableTilesOnDim targetDim
decreasing_by
  · have later := layer.nextAlignedLeft_gt _found
    rw [update_self]
    omega
  · rw [update_self]
    omega

/-- The number of tiles on each dimension. There is none when the tiling fails. -/
def chooseTiles (isMultithreadingEnabled : Bool) (tilingMode : TilingMode) : Option TileCounts :=
  let tilingModeToCheck := if tilingMode = .PIPELINING then .ISOLATED else tilingMode
  let nTilesOnDim := layer.feasibleNextDim isMultithreadingEnabled tilingModeToCheck (fun _ => 1)
    layer.firstDim
  match layer.searchTiling isMultithreadingEnabled tilingModeToCheck nTilesOnDim layer.firstDim
    layer.otherDims with
  | none =>
    -- If still not find the tiling strategy in PREFETCHING, fall back to neutral tiling
    if tilingModeToCheck = .ISOLATED then none else some fun _ => 1
  | some nTilesOnDim =>
    if tilingMode ≠ .PIPELINING then some nTilesOnDim
    else
      let dimsToTile := (List.range layer.outputShape.length).filter fun dim => 1 < nTilesOnDim dim
      if 1 < dimsToTile.length then some nTilesOnDim
      else some (layer.increaseForPipelining nTilesOnDim (dimsToTile.headD 1) nTilesOnDim)

def getHWLayerTilingStrategyWithTileDimOrder (isMultithreadingEnabled : Bool)
    (tilingMode : TilingMode) : Option Tiles :=
  (layer.chooseTiles isMultithreadingEnabled tilingMode).bind layer.fillDividedTiles

/-! ### Both ways to check -/

variable {layer} {rest : List Nat}

theorem dimPlus_le (left : nTilesOnDim dim < layer.maxNumTiles dim) :
    layer.dimPlus nTilesOnDim dim dim ≤ layer.maxNumTiles dim := by
  rw [dimPlus, update_self]
  split
  · exact nextAligned_le left
  · exact left

theorem checkSupportedTiling_multithreaded (legal : nTilesOnDim dim ≤ layer.maxNumTiles dim) :
    layer.checkSupportedTiling true nTilesOnDim dim tilingMode =
      if layer.isSupportedTileSizeForHWLayer nTilesOnDim tilingMode then (true, nTilesOnDim)
      else if layer.isDimLeftToTile nTilesOnDim dim then
        (layer.isSupportedTileSizeForHWLayer (layer.dimPlus nTilesOnDim dim) tilingMode,
          layer.dimPlus nTilesOnDim dim)
      else (false, nTilesOnDim) := by
  rw [checkSupportedTiling, if_pos rfl, checkSupportedTilingMultithreaded]
  by_cases left : nTilesOnDim dim < layer.maxNumTiles dim
  · have second : layer.dimPlus nTilesOnDim dim dim ≤ layer.maxNumTiles dim := dimPlus_le left
    have isLeft : layer.isDimLeftToTile nTilesOnDim dim = true := decide_eq_true left
    simp only [filter_cons, legal, second, decide_true, if_true, filter_nil, firstSupported, isLeft]
    by_cases supported : layer.isSupportedTileSizeForHWLayer (layer.dimPlus nTilesOnDim dim)
        tilingMode = true
    · rw [if_pos supported, supported]
    · rw [if_neg supported, Bool.eq_false_iff.mpr supported]
  · have second : ¬ layer.dimPlus nTilesOnDim dim dim ≤ layer.maxNumTiles dim :=
      ((not_lt.mp left).trans_lt (dimPlus_gt nTilesOnDim dim)).not_ge
    have isLeft : layer.isDimLeftToTile nTilesOnDim dim = false := decide_eq_false left
    simp only [filter_cons, legal, second, decide_true, decide_false, if_true, if_false,
      filter_nil, firstSupported, isLeft, Bool.false_eq_true]

theorem fixNextDims_cons (isMultithreadingEnabled : Bool) (nextDim : Nat) :
    layer.fixNextDims isMultithreadingEnabled tilingMode nTilesOnDim counts (nextDim :: rest) =
      if (layer.checkSupportedTiling isMultithreadingEnabled counts nextDim tilingMode).1 then
        Function.update nTilesOnDim nextDim
          ((layer.checkSupportedTiling isMultithreadingEnabled counts nextDim tilingMode).2 nextDim)
      else if layer.isDimLeftToTile
          (layer.checkSupportedTiling isMultithreadingEnabled counts nextDim tilingMode).2
          nextDim then
        layer.fixNextDims isMultithreadingEnabled tilingMode nTilesOnDim (layer.dimPlus
          (layer.checkSupportedTiling isMultithreadingEnabled counts nextDim tilingMode).2
          nextDim) (nextDim :: rest)
      else layer.fixNextDims isMultithreadingEnabled tilingMode
        (Function.update nTilesOnDim nextDim
          ((layer.checkSupportedTiling isMultithreadingEnabled counts nextDim tilingMode).2
            nextDim))
        (layer.checkSupportedTiling isMultithreadingEnabled counts nextDim tilingMode).2 rest := by
  rw [fixNextDims]

theorem searchTiling_eq (isMultithreadingEnabled : Bool) :
    layer.searchTiling isMultithreadingEnabled tilingMode nTilesOnDim dim rest =
      if (layer.checkSupportedTiling isMultithreadingEnabled nTilesOnDim dim tilingMode).1 then
        some (layer.checkSupportedTiling isMultithreadingEnabled nTilesOnDim dim tilingMode).2
      else (layer.moveToNextDim (layer.checkSupportedTiling isMultithreadingEnabled nTilesOnDim dim
        tilingMode).2 dim rest).bind fun moved =>
          layer.searchTiling isMultithreadingEnabled tilingMode (layer.dimPlus moved.1 moved.2.1)
            moved.2.1 moved.2.2 := by
  rw [searchTiling]
  split
  · rfl
  · split
    · rename_i none
      rw [none]
      rfl
    · rename_i found
      rw [found]
      rfl

theorem fixNextDims_single {nextDim : Nat} (legal : counts nextDim ≤ layer.maxNumTiles nextDim) :
    layer.fixNextDims false tilingMode nTilesOnDim counts (nextDim :: rest) =
      if (layer.checkSupportedTiling true counts nextDim tilingMode).1 then
        Function.update nTilesOnDim nextDim
          ((layer.checkSupportedTiling true counts nextDim tilingMode).2 nextDim)
      else if layer.isDimLeftToTile
          (layer.checkSupportedTiling true counts nextDim tilingMode).2 nextDim then
        layer.fixNextDims false tilingMode nTilesOnDim (layer.dimPlus
          (layer.checkSupportedTiling true counts nextDim tilingMode).2 nextDim) (nextDim :: rest)
      else layer.fixNextDims false tilingMode
        (Function.update nTilesOnDim nextDim
          ((layer.checkSupportedTiling true counts nextDim tilingMode).2 nextDim))
        (layer.checkSupportedTiling true counts nextDim tilingMode).2 rest := by
  have single : ∀ counts : TileCounts,
      layer.checkSupportedTiling false counts nextDim tilingMode =
        (layer.isSupportedTileSizeForHWLayer counts tilingMode, counts) := fun _ => rfl
  rw [checkSupportedTiling_multithreaded legal, fixNextDims_cons, single]
  by_cases supported : layer.isSupportedTileSizeForHWLayer counts tilingMode = true
  · rw [if_pos supported, if_pos supported]
    rfl
  · rw [if_neg supported, if_neg supported]
    by_cases left : layer.isDimLeftToTile counts nextDim = true
    · rw [if_pos left, if_pos left, fixNextDims_cons, single]
    · rw [if_neg left, if_neg left, if_neg Bool.false_ne_true, if_neg left]

theorem searchTiling_single (legal : nTilesOnDim dim ≤ layer.maxNumTiles dim) :
    layer.searchTiling false tilingMode nTilesOnDim dim rest =
      if (layer.checkSupportedTiling true nTilesOnDim dim tilingMode).1 then
        some (layer.checkSupportedTiling true nTilesOnDim dim tilingMode).2
      else (layer.moveToNextDim (layer.checkSupportedTiling true nTilesOnDim dim
        tilingMode).2 dim rest).bind fun moved =>
          layer.searchTiling false tilingMode (layer.dimPlus moved.1 moved.2.1)
            moved.2.1 moved.2.2 := by
  have single : ∀ counts : TileCounts,
      layer.checkSupportedTiling false counts dim tilingMode =
        (layer.isSupportedTileSizeForHWLayer counts tilingMode, counts) := fun _ => rfl
  rw [checkSupportedTiling_multithreaded legal, searchTiling_eq, single]
  by_cases supported : layer.isSupportedTileSizeForHWLayer nTilesOnDim tilingMode = true
  · rw [if_pos supported, if_pos supported]
    rfl
  · rw [if_neg supported, if_neg supported]
    by_cases left : layer.isDimLeftToTile nTilesOnDim dim = true
    · have stays : layer.moveToNextDim nTilesOnDim dim rest = some (nTilesOnDim, dim, rest) := by
        cases rest <;> exact if_pos left
      rw [if_pos left, stays, bind_some, searchTiling_eq, single]
    · rw [if_neg left, if_neg Bool.false_ne_true]

/-- All numbers of tiles are legal. -/
def Legal (layer : HWLayer Tiles) (nTilesOnDim : TileCounts) : Prop :=
  ∀ dim, nTilesOnDim dim ≤ layer.maxNumTiles dim

section

variable (legal : layer.Legal nTilesOnDim)
include legal

theorem Legal.update (inside : tiles ≤ layer.maxNumTiles dim) :
    layer.Legal (Function.update nTilesOnDim dim tiles) := by
  intro other
  by_cases same : other = dim
  · rw [same, update_self]
    exact inside
  · rw [update_of_ne same]
    exact legal other

theorem Legal.dimPlus (left : nTilesOnDim dim < layer.maxNumTiles dim) :
    layer.Legal (layer.dimPlus nTilesOnDim dim) := by
  have inside := dimPlus_le left
  rw [HWLayer.dimPlus, update_self] at inside
  exact legal.update inside

theorem Legal.checkSupportedTiling (dim : Nat) : layer.Legal
    (layer.checkSupportedTiling isMultithreadingEnabled nTilesOnDim dim tilingMode).2 := by
  rcases checkSupportedTiling_snd nTilesOnDim dim with same | ⟨stepped, inside⟩
  · rw [same]
    exact legal
  · rw [stepped]
    exact legal.dimPlus ((dimPlus_gt nTilesOnDim dim).trans_le inside)

theorem Legal.decreaseUntilCompatible (dim : Nat) :
    layer.Legal (layer.decreaseUntilCompatible nTilesOnDim dim) := by
  induction nTilesOnDim using decreaseUntilCompatible.induct layer dim with
  | case1 nTilesOnDim continues ih =>
    rw [HWLayer.decreaseUntilCompatible, if_pos continues]
    refine ih (legal.update ?_)
    exact ((previousAligned_le layer dim _).trans (sub_le _ _)).trans (legal dim)
  | case2 nTilesOnDim stops =>
    rw [HWLayer.decreaseUntilCompatible, if_neg stops]
    exact legal

theorem Legal.moveToNextDim {moved : TileCounts × Nat × List Nat}
    (found : layer.moveToNextDim nTilesOnDim dim rest = some moved) : layer.Legal moved.1 := by
  induction rest generalizing nTilesOnDim dim with
  | nil =>
    unfold HWLayer.moveToNextDim at found
    split at found
    · cases found
      exact legal
    · cases found
  | cons nextDim rest ih =>
    unfold HWLayer.moveToNextDim at found
    split at found
    · cases found
      exact legal
    · exact ih (legal.decreaseUntilCompatible dim) found

end

theorem fixNextDims_same (nTilesOnDim : TileCounts) (legal : layer.Legal counts) :
    layer.fixNextDims true tilingMode nTilesOnDim counts rest =
      layer.fixNextDims false tilingMode nTilesOnDim counts rest := by
  induction nTilesOnDim, counts, rest using fixNextDims.induct layer true tilingMode with
  | case1 nTilesOnDim counts => rw [fixNextDims, fixNextDims]
  | case2 nTilesOnDim counts nextDim rest checked supported =>
    rw [fixNextDims_cons, fixNextDims_single (legal nextDim), if_pos supported, if_pos supported]
  | case3 nTilesOnDim counts nextDim rest checked unsupported left ih =>
    rw [fixNextDims_cons, fixNextDims_single (legal nextDim), if_neg unsupported,
      if_neg unsupported, if_pos left, if_pos left]
    exact ih
      ((legal.checkSupportedTiling nextDim).dimPlus (of_decide_eq_true left))
  | case4 nTilesOnDim counts nextDim rest checked unsupported none ih =>
    rw [fixNextDims_cons, fixNextDims_single (legal nextDim), if_neg unsupported,
      if_neg unsupported, if_neg none, if_neg none]
    exact ih (legal.checkSupportedTiling nextDim)

theorem searchTiling_same (legal : layer.Legal nTilesOnDim) :
    layer.searchTiling true tilingMode nTilesOnDim dim rest =
      layer.searchTiling false tilingMode nTilesOnDim dim rest := by
  induction nTilesOnDim, dim, rest using searchTiling.induct layer true tilingMode with
  | case1 nTilesOnDim dim rest checked supported =>
    rw [searchTiling_eq, searchTiling_single (legal dim), if_pos supported, if_pos supported]
  | case2 nTilesOnDim dim rest checked unsupported none =>
    rw [searchTiling_eq, searchTiling_single (legal dim), if_neg unsupported, if_neg unsupported,
      none]
    rfl
  | case3 nTilesOnDim dim rest checked unsupported after nextDim later moved ih =>
    rw [searchTiling_eq, searchTiling_single (legal dim), if_neg unsupported, if_neg unsupported,
      moved]
    exact ih (((legal.checkSupportedTiling dim).moveToNextDim moved).dimPlus
      (moveToNextDim_some moved).1)

theorem Legal.fixNextDims (legal : layer.Legal nTilesOnDim) (newLegal : layer.Legal counts) :
    layer.Legal (layer.fixNextDims isMultithreadingEnabled tilingMode nTilesOnDim counts rest) := by
  induction nTilesOnDim, counts, rest using
      fixNextDims.induct layer isMultithreadingEnabled tilingMode with
  | case1 nTilesOnDim counts =>
    rw [HWLayer.fixNextDims]
    exact legal
  | case2 nTilesOnDim counts nextDim rest checked supported =>
    rw [fixNextDims_cons, if_pos supported]
    exact legal.update (newLegal.checkSupportedTiling nextDim nextDim)
  | case3 nTilesOnDim counts nextDim rest checked unsupported left ih =>
    rw [fixNextDims_cons, if_neg unsupported, if_pos left]
    exact ih legal
      ((newLegal.checkSupportedTiling nextDim).dimPlus (of_decide_eq_true left))
  | case4 nTilesOnDim counts nextDim rest checked unsupported none ih =>
    rw [fixNextDims_cons, if_neg unsupported, if_neg none]
    exact ih (legal.update (newLegal.checkSupportedTiling nextDim nextDim))
      (newLegal.checkSupportedTiling nextDim)

/-- The numbers that the first step works with. -/
theorem legal_newTilesOnDim (layer : HWLayer Tiles) (dim : Nat) :
    layer.Legal (layer.decreaseUntilCompatible
      (Function.update (fun _ => 1) dim (layer.maxNumTiles dim)) dim) := by
  have ones : layer.Legal fun _ => 1 := layer.maxNumTiles_pos
  exact (ones.update le_rfl).decreaseUntilCompatible dim

theorem feasibleNextDim_same (layer : HWLayer Tiles) (tilingMode : TilingMode) (dim : Nat) :
    layer.feasibleNextDim true tilingMode (fun _ => 1) dim =
      layer.feasibleNextDim false tilingMode (fun _ => 1) dim := by
  unfold feasibleNextDim
  rw [fixNextDims_same _ (legal_newTilesOnDim layer dim)]

theorem legal_feasibleNextDim (layer : HWLayer Tiles) (isMultithreadingEnabled : Bool)
    (tilingMode : TilingMode) (dim : Nat) : layer.Legal
      (layer.feasibleNextDim isMultithreadingEnabled tilingMode (fun _ => 1) dim) := by
  have ones : layer.Legal fun _ => 1 := layer.maxNumTiles_pos
  unfold feasibleNextDim
  split
  · exact ones
  · exact ones.fixNextDims (legal_newTilesOnDim layer dim)

theorem chooseTiles_same (layer : HWLayer Tiles) (tilingMode : TilingMode) :
    layer.chooseTiles true tilingMode = layer.chooseTiles false tilingMode := by
  unfold chooseTiles
  dsimp only
  rw [feasibleNextDim_same, searchTiling_same (legal_feasibleNextDim layer false _ _)]

theorem searchTiling_supported
    (found : layer.searchTiling false tilingMode nTilesOnDim dim rest = some counts) :
    layer.isSupportedTileSizeForHWLayer counts tilingMode = true := by
  induction nTilesOnDim, dim, rest using searchTiling.induct layer false tilingMode with
  | case1 nTilesOnDim dim rest checked supported =>
    rw [searchTiling_eq, if_pos supported] at found
    obtain rfl := some.inj found
    exact supported
  | case2 nTilesOnDim dim rest checked unsupported none =>
    rw [searchTiling_eq, if_neg unsupported, none] at found
    cases found
  | case3 nTilesOnDim dim rest checked unsupported after nextDim later moved ih =>
    rw [searchTiling_eq, if_neg unsupported, moved] at found
    exact ih found

/-- The search always comes to an end and finds the same number of tiles with one checker and with
two, and so it returns the same tiles. What it finds in isolated mode is supported. -/
theorem getHWLayerTilingStrategyWithTileDimOrder_same (layer : HWLayer Tiles)
    (tilingMode : TilingMode) :
    layer.chooseTiles true tilingMode = layer.chooseTiles false tilingMode ∧
      layer.getHWLayerTilingStrategyWithTileDimOrder true tilingMode =
        layer.getHWLayerTilingStrategyWithTileDimOrder false tilingMode ∧
      ∀ isMultithreadingEnabled nTilesOnDim,
        layer.chooseTiles isMultithreadingEnabled .ISOLATED = some nTilesOnDim →
          layer.isSupportedTileSizeForHWLayer nTilesOnDim .ISOLATED = true := by
  refine ⟨chooseTiles_same layer tilingMode, ?_,
    fun isMultithreadingEnabled nTilesOnDim chosen => ?_⟩
  · unfold getHWLayerTilingStrategyWithTileDimOrder
    rw [chooseTiles_same]
  · have single : layer.chooseTiles false .ISOLATED = some nTilesOnDim := by
      cases isMultithreadingEnabled with
      | false => exact chosen
      | true => exact (chooseTiles_same layer .ISOLATED).symm.trans chosen
    unfold chooseTiles at single
    dsimp only at single
    split at single
    · cases single
    · rename_i counts found
      obtain rfl := some.inj single
      exact searchTiling_supported found

end HWLayer

end NpuPlugin.Tiling
