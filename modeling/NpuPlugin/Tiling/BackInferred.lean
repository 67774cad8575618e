/-
This file proves when the inferred part of an input is exact: when the kernel fits into the padded
input, or no output is reported at all, and for a grouped convolution when the last group of a tile
is not left out.
-/

import NpuPlugin.Tiling.Divided

namespace NpuPlugin.Tiling

open Int Run

section

/-! ### One dimension -/

/-- One dimension of a layer. -/
structure Window where
  extent : Int
  kernel : Int
  stride : Int
  padBefore : Int
  padAfter : Int

namespace Window

variable (window : Window) (output : DimRange)

/-- Each pad is smaller than the kernel. -/
structure WellFormed : Prop where
  stride_pos : 0 < window.stride
  padBefore_nonneg : 0 ≤ window.padBefore
  padBefore_lt : window.padBefore < window.kernel
  padAfter_nonneg : 0 ≤ window.padAfter
  padAfter_lt : window.padAfter < window.kernel

def outputs : Int :=
  outputExtent window.extent window.kernel window.stride window.padBefore window.padAfter

/-- The kernel fits into the padded input, of which the padding is only a part. -/
structure Fits : Prop where
  extent_pos : 0 < window.extent
  kernel_le : window.kernel ≤ window.extent + window.padBefore + window.padAfter

def TooSmall : Prop :=
  window.extent + window.padBefore + window.padAfter + window.stride ≤ window.kernel

/-- An output reads a position of the input or of its padding. -/
def Reads (output position : Int) : Prop :=
  ∃ offset, 0 ≤ offset ∧ offset < window.kernel ∧
    position = output * window.stride - window.padBefore + offset

/-- A part of the input, with padding, is what some outputs need. -/
structure Exact (output input : DimRange) (before after : Int) : Prop where
  begin_nonneg : 0 ≤ input.begin
  stop_le : input.stop ≤ window.extent
  reads : ∀ position idx, output.begin ≤ idx → idx < output.stop →
    window.Reads idx position → 0 ≤ position → position < window.extent →
    input.begin ≤ position ∧ position < input.stop
  before_nonneg : 0 ≤ before
  after_nonneg : 0 ≤ after
  starts : input.begin - before = output.begin * window.stride - window.padBefore
  count : outputExtent input.length window.kernel window.stride before after = output.length

/-- The positions that the outputs read, as far as they are in the input. -/
def input : DimRange :=
  ⟨max (output.begin * window.stride - window.padBefore) 0,
    min ((output.stop - 1) * window.stride + window.kernel - window.padBefore) window.extent⟩

def before : Int := max (window.padBefore - output.begin * window.stride) 0

def after : Int :=
  max ((output.stop - 1) * window.stride + window.kernel - window.padBefore - window.extent) 0

structure Has : Prop where
  nonneg : 0 ≤ output.begin
  occupied : output.begin < output.stop
  inside : output.stop ≤ window.outputs

end Window

variable {window : Window} {output : DimRange} {kernel stride padBefore padAfter : Int}

theorem outputExtent_eq {input count : Int} (stride_pos : 0 < stride)
    (nonneg : 0 ≤ input - kernel + padBefore + padAfter)
    (above : (count - 1) * stride ≤ input - kernel + padBefore + padAfter)
    (below : input - kernel + padBefore + padAfter < count * stride) :
    outputExtent input kernel stride padBefore padAfter = count := by
  unfold outputExtent
  rw [Int.tdiv_eq_ediv_of_nonneg nonneg]
  have lower := (Int.le_ediv_iff_mul_le stride_pos).mpr above
  have upper := (Int.ediv_lt_iff_lt_mul stride_pos).mpr below
  omega

theorem outputExtent_pos_iff {input : Int} (stride_pos : 0 < stride) :
    0 < outputExtent input kernel stride padBefore padAfter ↔
      ¬ input + padBefore + padAfter + stride ≤ kernel := by
  have flipped : input - kernel + padBefore + padAfter =
      -(kernel - input - padBefore - padAfter) := by ring
  unfold outputExtent
  rcases Int.le_total 0 (input - kernel + padBefore + padAfter) with room | exceeds
  · have quotient := Int.ediv_nonneg room stride_pos.le
    rw [Int.tdiv_eq_ediv_of_nonneg room]
    omega
  · have steps := Int.le_ediv_iff_mul_le (a := 1)
      (b := kernel - input - padBefore - padAfter) stride_pos
    rw [one_mul] at steps
    rw [flipped, Int.neg_tdiv, Int.tdiv_eq_ediv_of_nonneg (by omega)]
    omega

theorem Window.WellFormed.outputs_pos_iff (wellFormed : window.WellFormed) :
    0 < window.outputs ↔ ¬ window.TooSmall :=
  outputExtent_pos_iff wellFormed.stride_pos

theorem Window.WellFormed.outputs_of_fits (wellFormed : window.WellFormed) (fits : window.Fits) :
    0 < window.outputs ∧ (window.outputs - 1) * window.stride ≤
        window.extent - window.kernel + window.padBefore + window.padAfter ∧
      window.extent - window.kernel + window.padBefore + window.padAfter <
        window.outputs * window.stride := by
  have nonneg : 0 ≤ window.extent - window.kernel + window.padBefore + window.padAfter := by
    have := fits.kernel_le
    omega
  unfold Window.outputs outputExtent
  rw [tdiv_eq_ediv_of_nonneg nonneg]
  have quotient := ediv_nonneg nonneg wellFormed.stride_pos.le
  have split := mul_ediv_add_emod
    (window.extent - window.kernel + window.padBefore + window.padAfter) window.stride
  have rest := emod_nonneg
    (window.extent - window.kernel + window.padBefore + window.padAfter) wellFormed.stride_pos.ne'
  have small := emod_lt_of_pos
    (window.extent - window.kernel + window.padBefore + window.padAfter) wellFormed.stride_pos
  generalize (window.extent - window.kernel + window.padBefore + window.padAfter) / window.stride =
    steps at *
  rw [add_sub_cancel_right, add_mul, one_mul, mul_comm steps]
  omega

theorem Window.Fits.outputs_pos (fits : window.Fits) (wellFormed : window.WellFormed) :
    0 < window.outputs := (wellFormed.outputs_of_fits fits).1

/-! ### The checks -/

variable {failure : BackInferFailure}

theorem throwUnless_ok {condition : Prop} [Decidable condition] (holds : condition) :
    throwUnless (decide condition) failure = .ok () := by
  rw [decide_eq_true holds]
  rfl

theorem throwUnless_or_ok {first second : Prop} [Decidable first] [Decidable second]
    (holds : first ∨ second) : throwUnless (decide first || decide second) failure = .ok () := by
  rw [← Bool.decide_or, decide_eq_true holds]
  rfl

theorem Window.Has.bounds (has : window.Has output) (wellFormed : window.WellFormed)
    (fits : window.Fits) : 0 ≤ output.begin * window.stride ∧
      output.begin * window.stride ≤ (output.stop - 1) * window.stride ∧
      (output.stop - 1) * window.stride ≤
        window.extent - window.kernel + window.padBefore + window.padAfter := by
  obtain ⟨_, last, _⟩ := wellFormed.outputs_of_fits fits
  have stride_pos := wellFormed.stride_pos
  have occupied := has.occupied
  have inside := has.inside
  refine ⟨mul_nonneg has.nonneg stride_pos.le,
    mul_le_mul_of_nonneg_right (by omega) stride_pos.le, ?_⟩
  exact (mul_le_mul_of_nonneg_right (by omega) stride_pos.le).trans last

theorem ite_lt_eq_max (first second : Int) (pad : Int) (bound : second - first ≤ pad) :
    (if first < second then min (second - first) pad else 0) = max (second - first) 0 := by
  split <;> omega

theorem inputForOutputDim_eq (wellFormed : window.WellFormed) (fits : window.Fits)
    (has : window.Has output) :
    inputForOutputDim output window.kernel window.stride ⟨0, window.extent⟩ window.padBefore
      window.padAfter = .ok (window.input output, window.before output, window.after output) := by
  obtain ⟨first_nonneg, first_le, last_le⟩ := has.bounds wellFormed fits
  obtain ⟨stride_pos, padBefore_nonneg, padBefore_lt, padAfter_nonneg, padAfter_lt⟩ := wellFormed
  obtain ⟨extent_pos, -⟩ := fits
  refine (ok_bind (throwUnless_ok (sub_pos.mpr has.occupied)) _).trans ?_
  refine (ok_bind (throwUnless_ok (sub_pos.mpr extent_pos)) _).trans ?_
  refine (ok_bind (throwUnless_ok (by omega)) _).trans ?_
  refine (ok_bind (throwUnless_ok stride_pos) _).trans ?_
  refine (ok_bind (throwUnless_ok padBefore_nonneg) _).trans ?_
  refine (ok_bind (throwUnless_ok padAfter_nonneg) _).trans ?_
  dsimp only
  refine (ok_bind (throwUnless_or_ok (by omega)) _).trans ?_
  refine (ok_bind (throwUnless_ok (by omega)) _).trans ?_
  refine (ok_bind (throwUnless_or_ok (by omega)) _).trans ?_
  refine (ok_bind (throwUnless_ok (by omega)) _).trans ?_
  refine (ok_bind (throwUnless_ok ?_) _).trans ?_
  · unfold DimRange.length
    dsimp only
    omega
  · unfold Window.input Window.before Window.after
    rw [ite_lt_eq_max _ _ _ (by omega), ite_lt_eq_max _ _ _ (by omega)]
    show Except.ok _ = Except.ok _
    rw [zero_sub, neg_sub]

theorem Window.Has.exact (has : window.Has output) (wellFormed : window.WellFormed)
    (fits : window.Fits) :
    window.Exact output (window.input output) (window.before output) (window.after output) := by
  obtain ⟨-, first_le, -⟩ := has.bounds wellFormed fits
  obtain ⟨stride_pos, -, -, -, -⟩ := wellFormed
  obtain ⟨-, -⟩ := fits
  unfold Window.input Window.before Window.after
  refine ⟨le_max_right _ _, min_le_right _ _, ?_, le_max_right _ _, le_max_right _ _, ?_, ?_⟩
  · rintro position idx above below ⟨offset, offset_nonneg, offset_lt, rfl⟩ nonneg inside
    have lower : output.begin * window.stride ≤ idx * window.stride :=
      mul_le_mul_of_nonneg_right above stride_pos.le
    have upper : idx * window.stride ≤ (output.stop - 1) * window.stride :=
      mul_le_mul_of_nonneg_right (by omega) stride_pos.le
    dsimp only
    omega
  · dsimp only
    omega
  · -- Together with the padding the part reaches from the first window to the last one.
    have distance : (output.stop - 1) * window.stride - output.begin * window.stride =
        (output.length - 1) * window.stride := by
      unfold DimRange.length
      ring
    have next : output.length * window.stride =
        (output.length - 1) * window.stride + window.stride := by ring
    refine outputExtent_eq stride_pos ?_ ?_ ?_ <;>
    · unfold DimRange.length at *
      dsimp only at *
      omega

theorem Window.WellFormed.exact_whole (wellFormed : window.WellFormed) (fits : window.Fits) :
    window.Exact ⟨0, window.outputs⟩ ⟨0, window.extent⟩ (window.before ⟨0, window.outputs⟩)
      (window.after ⟨0, window.outputs⟩) := by
  obtain ⟨outputs_pos, last_le, more⟩ := wellFormed.outputs_of_fits fits
  obtain ⟨stride_pos, padBefore_nonneg, -, padAfter_nonneg, -⟩ := wellFormed
  obtain ⟨-, -⟩ := fits
  have last_nonneg : 0 ≤ (window.outputs - 1) * window.stride := mul_nonneg (by omega) stride_pos.le
  unfold Window.before Window.after
  refine ⟨le_rfl, le_rfl, fun _ _ _ _ _ nonneg inside => ⟨nonneg, inside⟩, le_max_right _ _,
    le_max_right _ _, ?_, ?_⟩
  · dsimp only
    omega
  · have extent : (⟨0, window.extent⟩ : DimRange).length = window.extent := sub_zero _
    have outputs : (⟨0, window.outputs⟩ : DimRange).length = window.outputs := sub_zero _
    rw [extent, outputs, zero_mul]
    refine outputExtent_eq stride_pos ?_ ?_ ?_ <;>
    · dsimp only
      omega

theorem inputForOutputDim_of_not_fits (wellFormed : window.WellFormed) (large : ¬ window.Fits) :
    ∃ failure, inputForOutputDim ⟨0, 1⟩ window.kernel window.stride ⟨0, window.extent⟩
      window.padBefore window.padAfter = .error failure := by
  obtain ⟨stride_pos, padBefore_nonneg, padBefore_lt, padAfter_nonneg, -⟩ := wellFormed
  by_cases extent_pos : 0 < window.extent
  · have kernel_gt : window.extent + window.padBefore + window.padAfter < window.kernel :=
      not_le.mp fun kernel_le => large ⟨extent_pos, kernel_le⟩
    refine ⟨.padAfterMismatch ⟨max (0 * window.stride - window.padBefore) 0,
      (1 - 1) * window.stride + window.kernel - window.padBefore⟩ window.padAfter
      ⟨0, window.extent⟩, ?_⟩
    refine (ok_bind (throwUnless_ok (sub_pos.mpr one_pos)) _).trans ?_
    refine (ok_bind (throwUnless_ok (sub_pos.mpr extent_pos)) _).trans ?_
    refine (ok_bind (throwUnless_ok (by omega)) _).trans ?_
    refine (ok_bind (throwUnless_ok stride_pos) _).trans ?_
    refine (ok_bind (throwUnless_ok padBefore_nonneg) _).trans ?_
    refine (ok_bind (throwUnless_ok padAfter_nonneg) _).trans ?_
    dsimp only
    refine (ok_bind (throwUnless_or_ok (by omega)) _).trans ?_
    refine (ok_bind (throwUnless_ok (by omega)) _).trans ?_
    refine error_bind ?_ _
    rw [← Bool.decide_or, decide_eq_false (by omega)]
    rfl
  · refine ⟨.wrongInitialInput ⟨0, window.extent⟩, ?_⟩
    refine (ok_bind (throwUnless_ok (sub_pos.mpr one_pos)) _).trans ?_
    refine error_bind ?_ _
    unfold throwUnless DimRange.length
    rw [decide_eq_false fun pos => extent_pos (sub_pos.mp pos)]
    rfl

end

/-! ### The planar dimensions of a tile -/

def TileInfo.range (tile : TileInfo) (dim : Nat) : DimRange :=
  ⟨tile.offsets.getD dim 0, tile.offsets.getD dim 0 + tile.shape.getD dim 0⟩

/-- The whole extent of the input is kept for the dimension. -/
def TileInfo.untiled (tile : TileInfo) (dim : Nat) : Bool :=
  tile.isCompletedTile && tile.axis.getD dim 0 == 1

/-- The tile has outputs of the window, and all of them along a dimension that is not tiled. -/
structure Window.HasTile (window : Window) (tile : TileInfo) (dim : Nat) : Prop where
  has : window.Has (tile.range dim)
  whole : tile.untiled dim = true → tile.range dim = ⟨0, window.outputs⟩

/-- The part of the input that is kept for a tile. -/
def Window.kept (window : Window) (tile : TileInfo) (dim : Nat) : DimRange :=
  let input := window.input (tile.range dim)
  if tile.untiled dim then ⟨input.begin, input.begin + window.extent⟩ else input

variable {window : Window} {tile : TileInfo} {dim : Nat}

theorem Window.begin_kept : (window.kept tile dim).begin =
    (window.input (tile.range dim)).begin := by
  unfold Window.kept
  cases tile.untiled dim <;> rfl

theorem Window.length_kept : (window.kept tile dim).length =
    if tile.untiled dim then window.extent
      else (window.input (tile.range dim)).length := by
  unfold Window.kept
  cases tile.untiled dim with
  | false => rfl
  | true => exact add_sub_cancel_left _ _

theorem Window.HasTile.exact (hasTile : window.HasTile tile dim)
    (wellFormed : window.WellFormed) (fits : window.Fits) :
    window.Exact (tile.range dim) (window.kept tile dim)
      (window.before (tile.range dim)) (window.after (tile.range dim)) := by
  unfold Window.kept
  cases untiled : tile.untiled dim with
  | false => exact hasTile.has.exact wellFormed fits
  | true =>
    have first : (window.input ⟨0, window.outputs⟩).begin = 0 := by
      have := wellFormed.padBefore_nonneg
      unfold Window.input
      dsimp only
      omega
    rw [hasTile.whole untiled, if_pos rfl, first, zero_add]
    exact wellFormed.exact_whole fits

theorem Window.Exact.length_le {output input : DimRange} {before after : Int}
    (exact : window.Exact output input before after) : input.length ≤ window.extent := by
  have := exact.begin_nonneg
  have := exact.stop_le
  unfold DimRange.length
  omega

theorem restoreUntiledAxis_eq {outputTile : TileInfo} {origInputShape : List Int} {planarDim : Nat}
    {inputTile : TileInfo} (planar : planarDim = 2 ∨ planarDim = 3)
    (room : inputTile.shape.getD planarDim 0 ≤ origInputShape.getD planarDim 0) :
    restoreUntiledAxis outputTile origInputShape planarDim inputTile =
      .ok (if outputTile.untiled planarDim then { inputTile with
        shape := inputTile.shape.set planarDim (origInputShape.getD planarDim 0) } else
          inputTile) := by
  unfold restoreUntiledAxis restorePlanarShapeForInputTile TileInfo.untiled
  split
  · rw [if_neg (by omega), if_neg room.not_gt]
  · rfl

/-! ### Both dimensions -/

/-- A convolution or a pooling as its planar dimensions see it. -/
structure Layer where
  height : Window
  width : Window

namespace Layer

variable (layer : Layer)

structure WellFormed : Prop where
  height : layer.height.WellFormed
  width : layer.width.WellFormed

structure Fits : Prop where
  height : layer.height.Fits
  width : layer.width.Fits

def kernel : List Int := [layer.height.kernel, layer.width.kernel]

def strides : List Int := [layer.height.stride, layer.width.stride]

def pads : PadInfo :=
  ⟨layer.width.padBefore, layer.width.padAfter, layer.height.padBefore, layer.height.padAfter⟩

def inputShape (batch channels : Int) : List Int :=
  [batch, channels, layer.height.extent, layer.width.extent]

def filterShape (outputChannels inputChannels : Int) : List Int :=
  [outputChannels, inputChannels, layer.height.kernel, layer.width.kernel]

/-- The outputs that are reported for a height and a width of the input. -/
def spatialOutput (height width : Int) (pads : PadInfo) :
    Except BackInferFailure (Option (Int × Int)) :=
  spatialOutputForInputWindowSize (height, width) layer.kernel layer.strides pads

structure HasTile (tile : TileInfo) : Prop where
  height : layer.height.HasTile tile 2
  width : layer.width.HasTile tile 3

/-- The input of a tile is exact in both dimensions, and the layer computes the tile from it. -/
structure ExactTile (tile input : TileInfo) (pads : PadInfo) : Prop where
  height : layer.height.Exact (tile.range 2) (input.range 2) pads.top pads.bottom
  width : layer.width.Exact (tile.range 3) (input.range 3) pads.left pads.right
  computes : layer.spatialOutput (input.range 2).length (input.range 3).length pads =
    .ok (some ((tile.range 2).length, (tile.range 3).length))

end Layer

/-- The inferred input of every range of outputs is exact. -/
def Window.Infers (window : Window) (outputs : Int) : Prop :=
  ∀ output : DimRange, 0 ≤ output.begin → output.begin < output.stop → output.stop ≤ outputs →
    ∃ input before after, inputForOutputDim output window.kernel window.stride ⟨0, window.extent⟩
        window.padBefore window.padAfter = .ok (input, before, after) ∧
      window.Exact output input before after

/-- The inferred input of every range of outputs and of every tile is exact. -/
structure Layer.Infers (layer : Layer) (outputs : Int × Int) : Prop where
  height : layer.height.Infers outputs.1
  width : layer.width.Infers outputs.2
  convolution : ∀ tile, layer.HasTile tile → ∀ batch channels outputChannels biasShape,
    ∃ input others pads, backInferConvTile tile (layer.inputShape batch channels)
        (layer.filterShape outputChannels channels) biasShape layer.strides layer.pads =
          .ok ⟨input :: others, some pads⟩ ∧
      layer.ExactTile tile input pads
  pooling : ∀ tile, layer.HasTile tile → ∀ batch channels,
    ∃ input pads, backInferPoolTile tile (layer.inputShape batch channels) layer.kernel
        layer.strides layer.pads = .ok ⟨[input], some pads⟩ ∧
      layer.ExactTile tile input pads

variable {layer : Layer}

theorem spatialOutput_eq {height width : Int} {pads : PadInfo} (top : 0 ≤ pads.top)
    (bottom : 0 ≤ pads.bottom) (left : 0 ≤ pads.left) (right : 0 ≤ pads.right) :
    layer.spatialOutput height width pads =
      .ok (if outputExtent height layer.height.kernel layer.height.stride pads.top pads.bottom ≤ 0 ∨
          outputExtent width layer.width.kernel layer.width.stride pads.left pads.right ≤ 0
            then none
        else some (outputExtent height layer.height.kernel layer.height.stride pads.top pads.bottom,
          outputExtent width layer.width.kernel layer.width.stride pads.left pads.right)) := by
  unfold Layer.spatialOutput Layer.kernel Layer.strides spatialOutputForInputWindowSize
  dsimp only
  rw [if_neg (by omega)]
  split <;> rfl

theorem Layer.WellFormed.spatialOutput_eq (wellFormed : layer.WellFormed) :
    layer.spatialOutput layer.height.extent layer.width.extent layer.pads =
      .ok (if layer.height.outputs ≤ 0 ∨ layer.width.outputs ≤ 0 then none
        else some (layer.height.outputs, layer.width.outputs)) :=
  Tiling.spatialOutput_eq wellFormed.height.padBefore_nonneg wellFormed.height.padAfter_nonneg
    wellFormed.width.padBefore_nonneg wellFormed.width.padAfter_nonneg

theorem Window.WellFormed.infers (wellFormed : window.WellFormed) (fits : window.Fits) :
    window.Infers window.outputs := by
  intro output nonneg occupied inside
  have has : window.Has output := ⟨nonneg, occupied, inside⟩
  exact ⟨_, _, _, inputForOutputDim_eq wellFormed fits has, has.exact wellFormed fits⟩

theorem Layer.ExactTile.of_exact {input : TileInfo} {pads : PadInfo} (hasTile : layer.HasTile tile)
    (height : layer.height.Exact (tile.range 2) (input.range 2) pads.top pads.bottom)
    (width : layer.width.Exact (tile.range 3) (input.range 3) pads.left pads.right) :
    layer.ExactTile tile input pads := by
  refine ⟨height, width, ?_⟩
  have rows : 0 < (tile.range 2).length := sub_pos.mpr hasTile.height.has.occupied
  have columns : 0 < (tile.range 3).length := sub_pos.mpr hasTile.width.has.occupied
  rw [Tiling.spatialOutput_eq height.before_nonneg height.after_nonneg width.before_nonneg
    width.after_nonneg, height.count, width.count, if_neg (by omega)]

theorem dimRange_eq {stop : Int} (nonneg : 0 ≤ stop) : dimRange 0 stop = .ok ⟨0, stop⟩ :=
  if_pos nonneg

section

variable (wellFormed : layer.WellFormed) (fits : layer.Fits)
include wellFormed fits

theorem inputForOutputTile_eq (hasTile : layer.HasTile tile) (batch channels : Int) :
    inputForOutputTile ⟨tile.range 3, tile.range 2⟩ layer.width.kernel layer.height.kernel
        layer.width.stride layer.height.stride (layer.inputShape batch channels) layer.pads =
      .ok (⟨layer.width.input (tile.range 3), layer.height.input (tile.range 2)⟩,
        ⟨layer.width.before (tile.range 3), layer.width.after (tile.range 3),
          layer.height.before (tile.range 2), layer.height.after (tile.range 2)⟩) := by
  have rows := inputForOutputDim_eq wellFormed.height fits.height hasTile.height.has
  have columns := inputForOutputDim_eq wellFormed.width fits.width hasTile.width.has
  refine (ok_bind (dimRange_eq fits.height.extent_pos.le) _).trans ?_
  refine (ok_bind rows _).trans ?_
  refine (ok_bind (dimRange_eq fits.width.extent_pos.le) _).trans ?_
  exact ok_bind columns _

theorem planarInput_exact (hasTile : layer.HasTile tile) (batch channels : Int)
    (n c h w a b x y : Int) (axis : List Int) (completed : Bool) :
    ∃ input pads, planarInput tile (layer.inputShape batch channels) layer.width.kernel
        layer.height.kernel layer.width.stride layer.height.stride layer.pads
          ⟨[n, c, h, w], [a, b, x, y], axis, completed⟩ = .ok (input, pads) ∧
      layer.ExactTile tile input pads := by
  have rows := hasTile.height.exact wellFormed.height fits.height
  have columns := hasTile.width.exact wellFormed.width fits.width
  have rowsFit := (hasTile.height.has.exact wellFormed.height fits.height).length_le
  have columnsFit := (hasTile.width.has.exact wellFormed.width fits.width).length_le
  have solution := inputForOutputTile_eq wellFormed fits hasTile batch channels
  refine ⟨⟨[n, c, (layer.height.kept tile 2).length, (layer.width.kept tile 3).length],
    [a, b, (layer.height.kept tile 2).begin, (layer.width.kept tile 3).begin], axis, completed⟩,
    ⟨layer.width.before (tile.range 3), layer.width.after (tile.range 3),
      layer.height.before (tile.range 2), layer.height.after (tile.range 2)⟩, ?_, ?_⟩
  · refine (ok_bind solution _).trans ?_
    refine (ok_bind (restoreUntiledAxis_eq (.inl rfl) ?_) _).trans ?_
    · exact rowsFit
    refine (ok_bind (restoreUntiledAxis_eq (.inr rfl) ?_) _).trans ?_
    · cases tile.untiled 2 <;> exact columnsFit
    · rw [Window.begin_kept, Window.begin_kept, Window.length_kept, Window.length_kept]
      cases tile.untiled 2 <;> cases tile.untiled 3 <;> rfl
  · have range : ∀ kept : DimRange, (⟨kept.begin, kept.begin + kept.length⟩ : DimRange) = kept :=
      fun kept => congrArg (DimRange.mk kept.begin) (add_sub_cancel _ _)
    rw [← range (layer.height.kept tile 2)] at rows
    rw [← range (layer.width.kept tile 3)] at columns
    exact .of_exact hasTile rows columns

theorem Layer.WellFormed.infers : layer.Infers (layer.height.outputs, layer.width.outputs) := by
  refine ⟨wellFormed.height.infers fits.height, wellFormed.width.infers fits.width, ?_, ?_⟩
  · intro tile hasTile batch channels outputChannels biasShape
    obtain ⟨input, pads, res, exact⟩ := planarInput_exact wellFormed fits hasTile batch channels
      (tile.shape.getD 0 0) channels layer.height.extent layer.width.extent
      (tile.offsets.getD 0 0) 0 0 0 tile.axis false
    cases biasShape with
    | nil => exact ⟨input, _, pads, ok_bind res _, exact⟩
    | cons bias rest => exact ⟨input, _, pads, ok_bind res _, exact⟩
  · intro tile hasTile batch channels
    obtain ⟨input, pads, res, exact⟩ := planarInput_exact wellFormed fits hasTile batch channels
      (tile.shape.getD 0 0) (tile.shape.getD 1 0) layer.height.extent layer.width.extent
      (tile.offsets.getD 0 0) (tile.offsets.getD 1 0) 0 0 [1, 1, 1, 1] false
    exact ⟨input, pads, ok_bind res _, exact⟩

end

/-! ### When the inferred input is exact -/

/-- The inferred input of every tile is exact if and only if the kernel fits into the padded input
in both dimensions, or exceeds it by at least a stride in one of them. -/
theorem backInfer_exact_iff (wellFormed : layer.WellFormed) :
    (∀ outputs, layer.spatialOutput layer.height.extent layer.width.extent layer.pads =
        .ok (some outputs) → layer.Infers outputs) ↔
      layer.Fits ∨ layer.height.TooSmall ∨ layer.width.TooSmall := by
  have rows := wellFormed.height.outputs_pos_iff
  have columns := wellFormed.width.outputs_pos_iff
  have reported := wellFormed.spatialOutput_eq
  constructor
  · intro infers
    by_contra neither
    obtain ⟨unfit, tall, wide⟩ : ¬ layer.Fits ∧ ¬ layer.height.TooSmall ∧
      ¬ layer.width.TooSmall := ⟨fun fits => neither (.inl fits),
        fun small => neither (.inr (.inl small)), fun small => neither (.inr (.inr small))⟩
    have rows_pos := rows.mpr tall
    have columns_pos := columns.mpr wide
    rw [if_neg (by omega)] at reported
    obtain ⟨height, width, _, _⟩ := infers _ reported
    rcases not_and_or.mp fun fit => unfit ⟨fit.1, fit.2⟩ with large | large
    · obtain ⟨input, before, after, res, _⟩ := height ⟨0, 1⟩ le_rfl Int.one_pos rows_pos
      obtain ⟨failure, refused⟩ := inputForOutputDim_of_not_fits wellFormed.height large
      exact absurd (res.symm.trans refused) nofun
    · obtain ⟨input, before, after, res, _⟩ := width ⟨0, 1⟩ le_rfl Int.one_pos columns_pos
      obtain ⟨failure, refused⟩ := inputForOutputDim_of_not_fits wellFormed.width large
      exact absurd (res.symm.trans refused) nofun
  · rintro (fits | small) outputs res
    · have rows_pos := fits.height.outputs_pos wellFormed.height
      have columns_pos := fits.width.outputs_pos wellFormed.width
      rw [if_neg (by omega), res] at reported
      obtain rfl := Option.some.inj (Except.ok.inj reported)
      exact wellFormed.infers fits
    · have none : layer.height.outputs ≤ 0 ∨ layer.width.outputs ≤ 0 :=
        small.imp (fun short => not_lt.mp fun pos => rows.mp pos short)
          fun narrow => not_lt.mp fun pos => columns.mp pos narrow
      rw [if_pos none, res] at reported
      cases reported

/-- A stride of two, for which the last row of the input is not needed. -/
def stridedLayer : Layer := ⟨⟨14, 3, 2, 0, 0⟩, ⟨7, 3, 1, 1, 1⟩⟩

theorem backInfer_exact_iff_strided :
    stridedLayer.spatialOutput stridedLayer.height.extent stridedLayer.width.extent
      stridedLayer.pads = .ok (some (6, 7)) ∧ stridedLayer.Infers (6, 7) :=
  ⟨rfl, (@backInfer_exact_iff stridedLayer
    ⟨by constructor <;> decide, by constructor <;> decide⟩).mpr
      (.inl ⟨by constructor <;> decide, by constructor <;> decide⟩) (6, 7) rfl⟩

/-- One padded row is an output for a kernel of three rows. -/
def thinLayer : Layer := ⟨⟨1, 3, 2, 0, 1⟩, ⟨1, 1, 1, 0, 0⟩⟩

theorem thinLayer_not_infers : thinLayer.WellFormed ∧ ¬ ∀ outputs,
    thinLayer.spatialOutput thinLayer.height.extent thinLayer.width.extent thinLayer.pads =
      .ok (some outputs) → thinLayer.Infers outputs := by
  refine ⟨⟨by constructor <;> decide, by constructor <;> decide⟩, fun infers => ?_⟩
  obtain ⟨input, before, after, res, _⟩ :=
    (infers (1, 1) rfl).height ⟨0, 1⟩ le_rfl Int.one_pos le_rfl
  have refused : inputForOutputDim ⟨0, 1⟩ 3 2 ⟨0, 1⟩ 0 1 =
      .error (.padAfterMismatch ⟨0, 3⟩ 1 ⟨0, 1⟩) := by decide
  exact absurd (res.symm.trans refused) nofun

/-! ### Grouped convolutions -/

open List

/-- The first tile gets the channels of the groups. -/
def backInferGroupConvTile (outputTile : TileInfo)
    (origInputShape origFilterShape origBiasShape : List Int) (strides : List Int)
    (origPadding : PadInfo) (groups : Int) : Except BackInferFailure TilingInfo := do
  let res ← backInferConvTile outputTile origInputShape origFilterShape origBiasShape strides
    origPadding
  -- For GroupConv, the weights' OC dim is the product of num_group * num_channels_per_group
  let numOutChannelsPerGroup := (origFilterShape.getD 0 0).tdiv groups
  let startGroupForTile := (outputTile.offsets.getD 1 0).tdiv numOutChannelsPerGroup
  let numGroupsForTile := divUp (outputTile.shape.getD 1 0) numOutChannelsPerGroup
  return { res with
    tiles := res.tiles.modifyHead fun inputTile =>
      inputTile.setRange 1 (startGroupForTile * origFilterShape.getD 1 0)
        (numGroupsForTile * origFilterShape.getD 1 0) }

/-- A grouped convolution, by its planar dimensions and the channels of each group. -/
structure GroupConv where
  layer : Layer
  batch : Int
  groups : Int
  outChannelsPerGroup : Int
  inChannelsPerGroup : Int
  groups_pos : 0 < groups
  out_pos : 0 < outChannelsPerGroup
  in_pos : 0 < inChannelsPerGroup

namespace GroupConv

variable (conv : GroupConv)

def inputShape : List Int :=
  conv.layer.inputShape conv.batch (conv.groups * conv.inChannelsPerGroup)

def filterShape : List Int :=
  conv.layer.filterShape (conv.groups * conv.outChannelsPerGroup) conv.inChannelsPerGroup

def outputShape : List Int :=
  [conv.batch, conv.groups * conv.outChannelsPerGroup, conv.layer.height.outputs,
    conv.layer.width.outputs]

def backInfer (outputTile : TileInfo) (biasShape : List Int) : Except BackInferFailure TilingInfo :=
  backInferGroupConvTile outputTile conv.inputShape conv.filterShape biasShape
    conv.layer.strides conv.layer.pads conv.groups

def Touches (tile : TileInfo) (group : Int) : Prop :=
  ∃ channel, (tile.span 1).Contains channel ∧
    group * conv.outChannelsPerGroup ≤ channel ∧ channel < (group + 1) * conv.outChannelsPerGroup

/-- The input of the tile has the input channels of every group with an output channel in it. -/
def HasGroups (tile input : TileInfo) : Prop :=
  ∀ group, conv.Touches tile group → ∀ channel, group * conv.inChannelsPerGroup ≤ channel →
    channel < (group + 1) * conv.inChannelsPerGroup → (input.span 1).Contains channel

variable {conv}

/-! ### The range of the groups -/

theorem contains_channels_iff {start count group : Int} :
    (∀ channel, group * conv.inChannelsPerGroup ≤ channel →
        channel < (group + 1) * conv.inChannelsPerGroup →
        Spans.Span.Contains ⟨start * conv.inChannelsPerGroup, count * conv.inChannelsPerGroup⟩
          channel) ↔ start ≤ group ∧ group < start + count := by
  have positive := conv.in_pos
  constructor
  · intro all
    have first := all (group * conv.inChannelsPerGroup) le_rfl
      (by rw [add_mul, one_mul]; exact lt_add_of_pos_right _ positive)
    refine ⟨Int.le_of_mul_le_mul_right first.1 positive, ?_⟩
    have below := first.2
    rw [← add_mul] at below
    exact Int.lt_of_mul_lt_mul_right below positive.le
  · rintro ⟨above, below⟩ channel least less
    refine ⟨(mul_le_mul_of_nonneg_right above positive.le).trans least, less.trans_le ?_⟩
    rw [← add_mul]
    exact mul_le_mul_of_nonneg_right (Int.add_one_le_of_lt below) positive.le

theorem touches_iff {tile : TileInfo} (occupied : 0 < (tile.span 1).extent) {group : Int} :
    conv.Touches tile group ↔ (tile.span 1).offset / conv.outChannelsPerGroup ≤ group ∧
      group ≤ ((tile.span 1).offset + (tile.span 1).extent - 1) / conv.outChannelsPerGroup := by
  have positive := conv.out_pos
  rw [Int.le_ediv_iff_mul_le positive, ← Int.lt_add_one_iff, Int.ediv_lt_iff_lt_mul positive]
  constructor
  · rintro ⟨channel, ⟨above, below⟩, least, less⟩
    exact ⟨above.trans_lt less, by omega⟩
  · rintro ⟨starts, ends⟩
    refine ⟨max (tile.span 1).offset (group * conv.outChannelsPerGroup),
      ⟨le_max_left _ _, by omega⟩, le_max_right _ _, max_lt starts ?_⟩
    rw [add_mul, one_mul]
    exact lt_add_of_pos_right _ positive

/-- The groups of a span are among some from the first one on just when the span ends in them. -/
theorem last_group_lt_iff {offset extent count : Int} :
    (offset + extent - 1) / conv.outChannelsPerGroup <
        offset / conv.outChannelsPerGroup + count ↔
      offset % conv.outChannelsPerGroup + extent ≤ count * conv.outChannelsPerGroup := by
  have split := Int.mul_ediv_add_emod offset conv.outChannelsPerGroup
  rw [Int.ediv_lt_iff_lt_mul conv.out_pos, add_mul, mul_comm (offset / _)]
  omega

/-! ### The inferred tile -/

/-- A tile of four dimensions. -/
def IsFourD (tile : TileInfo) : Prop := tile.shape.length = 4 ∧ tile.offsets.length = 4

variable {tile outputTile inputTile : TileInfo} {origInputShape : List Int} {origPadding : PadInfo}
  {input : TileInfo} {others : List TileInfo} {pads : Option PadInfo}

theorem IsFourD.setRange (fourD : IsFourD tile) (dimension : Nat) (offset shape : Int) :
    IsFourD (tile.setRange dimension offset shape) :=
  ⟨length_set.trans fourD.1, length_set.trans fourD.2⟩

theorem IsFourD.restoreUntiledAxis {restored : TileInfo} {planarDim : Nat}
    (fourD : IsFourD inputTile)
    (result : restoreUntiledAxis outputTile origInputShape planarDim inputTile = .ok restored) :
    IsFourD restored := by
  unfold Tiling.restoreUntiledAxis restorePlanarShapeForInputTile at result
  split at result
  · split at result
    · cases result
    · split at result
      · cases result
      · cases result
        exact ⟨length_set.trans fourD.1, fourD.2⟩
  · cases result
    exact fourD

theorem IsFourD.planarInput {planar : TileInfo} {kernelX kernelY strideX strideY : Int}
    {pads : PadInfo} (fourD : IsFourD inputTile)
    (result : planarInput outputTile origInputShape kernelX kernelY strideX strideY origPadding
      inputTile = .ok (planar, pads)) : IsFourD planar := by
  obtain ⟨⟨solution, inputPad⟩, -, result⟩ := bind_ok result
  obtain ⟨high, restoredHigh, result⟩ := bind_ok result
  obtain ⟨wide, restoredWide, result⟩ := bind_ok result
  cases result
  exact (((fourD.setRange _ _ _).setRange _ _ _).restoreUntiledAxis restoredHigh).restoreUntiledAxis
    restoredWide

theorem isFourD_of_backInferConvTile {origFilterShape origBiasShape strides : List Int}
    (rank : origInputShape.length = 4)
    (result : backInferConvTile outputTile origInputShape origFilterShape origBiasShape strides
      origPadding = .ok ⟨input :: others, pads⟩) : IsFourD input := by
  have start : IsFourD (TileInfo.ofShape origInputShape) := ⟨rank, length_replicate.trans rank⟩
  have copied : IsFourD { (TileInfo.ofShape origInputShape).copyRange outputTile 0 0 with
      axis := outputTile.axis } := start.setRange 0 _ _
  obtain ⟨⟨planar, inputPad⟩, inferred, result⟩ := bind_ok result
  have fourD : IsFourD planar := copied.planarInput inferred
  dsimp only at result
  split at result
  · cases result
    exact fourD
  · cases result
    exact fourD

theorem IsFourD.span_setRange (fourD : IsFourD tile) {dimension : Nat} (inside : dimension < 4)
    (offset shape : Int) :
    (tile.setRange dimension offset shape).span dimension = ⟨offset, shape⟩ :=
  @span_assign tile dimension shape offset 0 (inside.trans_eq fourD.1.symm)
    (inside.trans_eq fourD.2.symm)

theorem span_backInfer {biasShape : List Int} (nonneg : 0 ≤ (tile.span 1).offset)
    (inferred : conv.backInfer tile biasShape = .ok ⟨input :: others, pads⟩) :
    input.span 1 = ⟨(tile.span 1).offset / conv.outChannelsPerGroup * conv.inChannelsPerGroup,
      divUp (tile.span 1).extent conv.outChannelsPerGroup * conv.inChannelsPerGroup⟩ := by
  obtain ⟨⟨tiles, resPads⟩, result, inferred⟩ := bind_ok inferred
  have channels : (conv.filterShape.getD 0 0).tdiv conv.groups = conv.outChannelsPerGroup :=
    Int.mul_tdiv_cancel_left _ conv.groups_pos.ne'
  cases tiles with
  | nil => cases inferred
  | cons first rest =>
    cases inferred
    have fourD := isFourD_of_backInferConvTile rfl result
    rw [fourD.span_setRange (by decide), channels]
    exact congrArg (fun start => (⟨start * conv.inChannelsPerGroup, _⟩ : Spans.Span))
      (Int.tdiv_eq_ediv_of_nonneg nonneg)

/-- The input of a tile has the channels of all groups of the tile just when the tile does not end
further inside a group than it starts. -/
theorem backInferGroupConvTile_hasGroups_iff (conv : GroupConv) {divisors : List Int}
    {alignment : Option (List Int)} {unrollSpatialFirst : Bool}
    (divisible : Divisible divisors conv.outputShape (alignment.getD (List.replicate 4 1)))
    {tiles : OutputTiling}
    (divided : fillDividedTiles divisors conv.outputShape alignment unrollSpatialFirst = .ok tiles)
    {tile : TileInfo} (mem : tile ∈ tiles) {biasShape : List Int} {input : TileInfo}
    {others : List TileInfo} {pads : Option PadInfo}
    (inferred : conv.backInfer tile biasShape = .ok ⟨input :: others, pads⟩) :
    conv.HasGroups tile input ↔
      (tile.span 1).offset % conv.outChannelsPerGroup + (tile.span 1).extent ≤
        divUp (tile.span 1).extent conv.outChannelsPerGroup * conv.outChannelsPerGroup := by
  obtain ⟨-, tiling, result, divides⟩ := (fillDividedTiles_spec divisible
    (Nat.succ_pos 3) fun _ => .inr rfl).resolve_left fun fails => by
      rw [divided] at fails
      cases fails.2
  obtain rfl : tiles = tiling := by
    rw [divided] at result
    exact Except.ok.inj result
  have channel : 1 < conv.outputShape.length := Nat.succ_lt_succ (Nat.succ_pos 2)
  have occupied := divides.positive tile mem 1 channel
  have nonneg := (divides.inside tile mem 1 channel).1
  have contains : conv.HasGroups tile input ↔ ∀ group, conv.Touches tile group →
      (tile.span 1).offset / conv.outChannelsPerGroup ≤ group ∧
        group < (tile.span 1).offset / conv.outChannelsPerGroup +
          divUp (tile.span 1).extent conv.outChannelsPerGroup := by
    refine forall₂_congr fun group _ => ?_
    rw [span_backInfer nonneg inferred]
    exact contains_channels_iff
  rw [contains, ← last_group_lt_iff]
  simp only [touches_iff occupied]
  constructor
  · exact fun all => (all _ ⟨Int.ediv_le_ediv conv.out_pos (by omega), le_rfl⟩).2
  · exact fun last group touched => ⟨touched.1, touched.2.trans_lt last⟩

/-- Two groups with three output channels each, of which four tiles have two, two, one and one. -/
def twoGroups : GroupConv where
  layer := ⟨⟨8, 1, 1, 0, 0⟩, ⟨8, 1, 1, 0, 0⟩⟩
  batch := 1
  groups := 2
  outChannelsPerGroup := 3
  inChannelsPerGroup := 4
  groups_pos := by decide
  out_pos := by decide
  in_pos := by decide

def channelTile (offset extent : Int) : TileInfo :=
  ⟨[1, extent, 8, 8], [0, offset, 0, 0], [1, 4, 1, 1], true⟩

/-- The input channels of one group. -/
def oneGroup : TileInfo := ⟨[1, 4, 8, 8], [0, 0, 0, 0], [1, 4, 1, 1], false⟩

/-- The second tile ends in the second group, but only gets the channels of the first one. -/
theorem twoGroups_missed : ∃ tiles tile input others pads,
    fillDividedTiles [1, 4, 1, 1] twoGroups.outputShape none false = .ok tiles ∧ tile ∈ tiles ∧
      twoGroups.backInfer tile [] = .ok ⟨input :: others, pads⟩ ∧
      ¬ twoGroups.HasGroups tile input := by
  refine ⟨_, channelTile 2 2, oneGroup, _, _, rfl, by decide, rfl, fun all => ?_⟩
  have touched : twoGroups.Touches (channelTile 2 2) 1 :=
    ⟨3, ⟨by decide, by decide⟩, by decide, by decide⟩
  exact absurd (all 1 touched 4 (by decide) (by decide)).2 (by decide)

theorem twoGroups_first : twoGroups.HasGroups (channelTile 0 2) oneGroup := by
  refine (@backInferGroupConvTile_hasGroups_iff twoGroups [1, 4, 1, 1] none false
    ⟨rfl, rfl, by decide⟩ _ rfl (channelTile 0 2) (by decide) [] oneGroup _ _ rfl).mpr ?_
  decide

end GroupConv

end NpuPlugin.Tiling
