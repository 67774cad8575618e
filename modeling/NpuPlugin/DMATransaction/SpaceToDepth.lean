/-
This file models how a space-to-depth transfer is unrolled into sub-DMAs with descriptors, and
proves which of the unrolled transfers are exact.
-/

import NpuPlugin.DMATransaction.Model
import Mathlib.Tactic.Linarith

namespace NpuPlugin.DMATransaction

open List Nat Or

/-! ### Shapes and modes -/

inductive DimsOrder
  | NCHW
  | NHWC
deriving DecidableEq, Repr

inductive SpaceToDepthMode
  | BLOCKS_FIRST
  | DEPTH_FIRST
deriving DecidableEq, Repr

structure Shape where
  N : Nat
  C : Nat
  H : Nat
  W : Nat
deriving DecidableEq, Repr

def Shape.position (shape : Shape) (channel row column : Nat) : DimsOrder → Nat
  | .NCHW => (channel * shape.H + row) * shape.W + column
  | .NHWC => (row * shape.W + column) * shape.C + channel

/-- The channel that gets an element of a block. -/
def SpaceToDepthMode.channel (IC blockSize channel blockRow blockColumn : Nat) :
    SpaceToDepthMode → Nat
  | .BLOCKS_FIRST => (blockRow * blockSize + blockColumn) * IC + channel
  | .DEPTH_FIRST => (channel * blockSize + blockRow) * blockSize + blockColumn

/-- `VPUIP::SpaceToDepthDMAOp`, with the size of an element in bits. -/
structure SpaceToDepthDMAOp where
  inShape : Shape
  elemTypeSize : Nat
  inOrder : DimsOrder
  outOrder : DimsOrder
  blockSize : Nat
  mode : SpaceToDepthMode
  srcOffset : Nat
  dstOffset : Nat
  port : Option Nat
deriving DecidableEq, Repr

/-- `SpaceToDepthOp::inferReturnTypeComponents` -/
def SpaceToDepthDMAOp.outShape (op : SpaceToDepthDMAOp) : Shape :=
  ⟨op.inShape.N, op.inShape.C * op.blockSize * op.blockSize, op.inShape.H / op.blockSize,
    op.inShape.W / op.blockSize⟩

inductive UnrollFailure
  | unsupportedLayout (inOrder outOrder : DimsOrder) (mode : SpaceToDepthMode)
  | notBytes (bits : Nat)
deriving DecidableEq, Repr

/-! ### Descriptors -/

section

variable (inShape outShape : Shape) (elemTypeSize blockSize : Nat)

def generateBlocksFirstNCHW2NCHW : DMADescriptor where
  numPlanes := blockSize
  len := inShape.W * elemTypeSize
  srcWidth := elemTypeSize
  srcStride := blockSize * elemTypeSize
  srcPlaneStride := elemTypeSize
  dstWidth := outShape.W * elemTypeSize
  dstStride := outShape.H * outShape.W * outShape.C / blockSize * elemTypeSize
  dstPlaneStride := outShape.H * outShape.W * inShape.C * elemTypeSize

def generateBlocksFirstNHWC2NHWC : DMADescriptor where
  numPlanes := blockSize
  len := inShape.C * inShape.W * outShape.H * elemTypeSize
  srcWidth := inShape.C * inShape.W * elemTypeSize
  srcStride := inShape.C * inShape.W * blockSize * elemTypeSize
  srcPlaneStride := inShape.C * inShape.W * elemTypeSize
  dstWidth := inShape.C * blockSize * elemTypeSize
  dstStride := outShape.C * elemTypeSize
  dstPlaneStride := inShape.C * blockSize * elemTypeSize

def generateBlocksFirstNCHW2NHWC : DMADescriptor where
  numPlanes := outShape.W
  len := blockSize * blockSize * elemTypeSize
  srcWidth := blockSize * elemTypeSize
  srcStride := inShape.W * elemTypeSize
  srcPlaneStride := blockSize * elemTypeSize
  dstWidth := elemTypeSize
  dstStride := inShape.C * elemTypeSize
  dstPlaneStride := outShape.C * elemTypeSize

def generateDepthFirstNCHW2NCHW : DMADescriptor where
  numPlanes := blockSize
  len := inShape.W * elemTypeSize
  srcWidth := elemTypeSize
  srcStride := blockSize * elemTypeSize
  srcPlaneStride := elemTypeSize
  dstWidth := outShape.W * elemTypeSize
  dstStride := outShape.H * outShape.W * blockSize * elemTypeSize
  dstPlaneStride := outShape.H * outShape.W * elemTypeSize

def generateDepthFirstNHWC2NHWC : DMADescriptor where
  numPlanes := inShape.C
  len := inShape.W * elemTypeSize
  srcWidth := elemTypeSize
  srcStride := inShape.C * elemTypeSize
  srcPlaneStride := elemTypeSize
  dstWidth := blockSize * elemTypeSize
  dstStride := outShape.C * elemTypeSize
  dstPlaneStride := blockSize * blockSize * elemTypeSize

def generateDepthFirstNCHW2NHWC : DMADescriptor where
  numPlanes := blockSize
  len := inShape.W * outShape.H * elemTypeSize
  srcWidth := inShape.W * elemTypeSize
  srcStride := inShape.W * blockSize * elemTypeSize
  srcPlaneStride := inShape.W * elemTypeSize
  dstWidth := blockSize * elemTypeSize
  dstStride := outShape.C * elemTypeSize
  dstPlaneStride := outShape.W * inShape.H * elemTypeSize

end

/-! ### Unrolling -/

structure SubDMA where
  subShape : Shape
  srcOffset : Nat
  dstOffset : Nat
  descriptor : DMADescriptor
  port : Nat
deriving DecidableEq, Repr

/-- `createSpaceToDepthDMASubOp` at each cursor of the loops, with the ports in turn. -/
def createSubOps (subShape : Shape) (descriptor : DMADescriptor) (dmaPortCount : Nat)
    (cursors : List Cursor) : List SubDMA :=
  cursors.map fun cursor => ⟨subShape, cursor.srcOffset, cursor.dstOffset, descriptor,
    cursor.index % dmaPortCount⟩

namespace SpaceToDepthDMAOp

variable (op : SpaceToDepthDMAOp) (elemTypeSize dmaPortCount : Nat)

def start : Cursor := ⟨op.srcOffset, op.dstOffset, 0⟩

def unrollBlocksFirstNCHW2NCHW : List SubDMA :=
  createSubOps ⟨op.inShape.N, 1, op.blockSize, op.inShape.W⟩
    (generateBlocksFirstNCHW2NCHW op.inShape op.outShape elemTypeSize op.blockSize) dmaPortCount
    -- The destination goes on from channel to channel
    (unrollLoops (op.inShape.W * op.blockSize * elemTypeSize) (op.outShape.W * elemTypeSize)
      (fun _ dstOffset => dstOffset) op.outShape.H op.inShape.C op.start)

def unrollBlocksFirstNHWC2NHWC : List SubDMA :=
  [⟨op.inShape, op.srcOffset, op.dstOffset,
    generateBlocksFirstNHWC2NHWC op.inShape op.outShape elemTypeSize op.blockSize,
    op.port.getD 0⟩]

def unrollBlocksFirstNCHW2NHWC : List SubDMA :=
  createSubOps ⟨op.inShape.N, 1, op.blockSize, op.inShape.W⟩
    (generateBlocksFirstNCHW2NHWC op.inShape op.outShape elemTypeSize op.blockSize) dmaPortCount
    (unrollLoops (op.inShape.W * op.blockSize * elemTypeSize)
      (op.outShape.C * op.outShape.W * elemTypeSize)
      (fun startDstIdx _ => startDstIdx + elemTypeSize) op.outShape.H op.inShape.C op.start)

def unrollDepthFirstNCHW2NCHW : List SubDMA :=
  createSubOps ⟨op.inShape.N, 1, op.blockSize, op.inShape.W⟩
    (generateDepthFirstNCHW2NCHW op.inShape op.outShape elemTypeSize op.blockSize) dmaPortCount
    (unrollLoops (op.inShape.W * op.blockSize * elemTypeSize) (op.outShape.W * elemTypeSize)
      (fun startDstIdx _ => startDstIdx + op.inShape.W * op.inShape.H * elemTypeSize) op.outShape.H
      op.inShape.C op.start)

def unrollDepthFirstNHWC2NHWC : List SubDMA :=
  createSubOps ⟨op.inShape.N, op.inShape.C, 1, op.inShape.W⟩
    (generateDepthFirstNHWC2NHWC op.inShape op.outShape elemTypeSize op.blockSize) dmaPortCount
    (unrollLoops (op.inShape.W * op.inShape.C * elemTypeSize) (op.blockSize * elemTypeSize)
      (fun startDstIdx _ => startDstIdx + op.outShape.W * op.outShape.C * elemTypeSize) op.blockSize
      op.outShape.H op.start)

def unrollDepthFirstNCHW2NHWC : List SubDMA :=
  createSubOps ⟨op.inShape.N, 1, op.inShape.H, op.inShape.W⟩
    (generateDepthFirstNCHW2NHWC op.inShape op.outShape elemTypeSize op.blockSize) dmaPortCount
    (unrollLoop (op.inShape.W * op.inShape.H * elemTypeSize)
      (op.blockSize * op.blockSize * elemTypeSize) op.inShape.C op.start).1

/-- `SpaceToDepthDMARewriter::matchAndRewrite` for an op that is not distributed. -/
def unroll : Except UnrollFailure (List SubDMA) := do
  let elemTypeSize := op.elemTypeSize / 8
  let subDMAs ← match op.inOrder, op.outOrder, op.mode with
    | .NCHW, .NCHW, .BLOCKS_FIRST => .ok (op.unrollBlocksFirstNCHW2NCHW elemTypeSize dmaPortCount)
    | .NCHW, .NCHW, .DEPTH_FIRST => .ok (op.unrollDepthFirstNCHW2NCHW elemTypeSize dmaPortCount)
    | .NHWC, .NHWC, .BLOCKS_FIRST => .ok (op.unrollBlocksFirstNHWC2NHWC elemTypeSize)
    | .NHWC, .NHWC, .DEPTH_FIRST => .ok (op.unrollDepthFirstNHWC2NHWC elemTypeSize dmaPortCount)
    | .NCHW, .NHWC, .BLOCKS_FIRST => .ok (op.unrollBlocksFirstNCHW2NHWC elemTypeSize dmaPortCount)
    | .NCHW, .NHWC, .DEPTH_FIRST => .ok (op.unrollDepthFirstNCHW2NHWC elemTypeSize dmaPortCount)
    | inOrder, outOrder, mode => .error (.unsupportedLayout inOrder outOrder mode)
  -- Sizes of elements that are no whole bytes are not converted
  if op.elemTypeSize % 8 ≠ 0 then .error (.notBytes op.elemTypeSize) else .ok subDMAs

end SpaceToDepthDMAOp

def executed (subDMAs : List SubDMA) : List (Nat × Nat) :=
  subDMAs.flatMap fun subDMA => subDMA.descriptor.transfer subDMA.srcOffset subDMA.dstOffset

/-! ### What belongs where -/

/-- A byte of an element of the input, by its place in the block that becomes a column. -/
structure Site where
  channel : Nat
  blockRow : Nat
  blockColumn : Nat
  row : Nat
  column : Nat
  byte : Nat
deriving DecidableEq, Repr

namespace SpaceToDepthDMAOp

variable (op : SpaceToDepthDMAOp) (elemTypeSize : Nat) (site : Site)

structure Has : Prop where
  channel : site.channel < op.inShape.C
  blockRow : site.blockRow < op.blockSize
  blockColumn : site.blockColumn < op.blockSize
  row : site.row < op.outShape.H
  column : site.column < op.outShape.W
  byte : site.byte < elemTypeSize

def source : Nat :=
  op.srcOffset + op.inShape.position site.channel (site.row * op.blockSize + site.blockRow)
    (site.column * op.blockSize + site.blockColumn) op.inOrder * elemTypeSize + site.byte

def targetElement : Nat :=
  op.outShape.position
    (op.mode.channel op.inShape.C op.blockSize site.channel site.blockRow site.blockColumn)
    site.row site.column op.outOrder

def target : Nat := op.dstOffset + op.targetElement site * elemTypeSize + site.byte

/-- The byte of the input that space-to-depth assigns to a byte of the output. -/
def Assigned (source target : Nat) : Prop :=
  ∃ site, op.Has elemTypeSize site ∧ source = op.source elemTypeSize site ∧
    target = op.target elemTypeSize site

/-- What the sub-DMAs of the op have to do. -/
def MovesRightBytes (subDMAs : List SubDMA) : Prop :=
  Exact (op.Assigned (op.elemTypeSize / 8)) op.dstOffset
    (op.outShape.N * (op.outShape.C * op.outShape.H * op.outShape.W * (op.elemTypeSize / 8)))
    (executed subDMAs)

end SpaceToDepthDMAOp

/-! ### Every byte of the output has an element -/

theorem exists_digits {count width number : Nat} (small : number < count * width) :
    ∃ first < count, ∃ rest < width, number = first * width + rest := by
  have pos : 0 < width := Nat.pos_of_mul_pos_left (Nat.zero_lt_of_lt small)
  exact ⟨number / width, Nat.div_lt_of_lt_mul (Nat.mul_comm count width ▸ small), number % width,
    mod_lt _ pos, (div_add_mod' number width).symm⟩

section

variable {op : SpaceToDepthDMAOp} {elemTypeSize : Nat}

theorem exists_channel {number : Nat} (small : number < op.outShape.C) :
    ∃ channel < op.inShape.C, ∃ blockRow < op.blockSize, ∃ blockColumn < op.blockSize,
      number = op.mode.channel op.inShape.C op.blockSize channel blockRow blockColumn := by
  change number < op.inShape.C * op.blockSize * op.blockSize at small
  cases op.mode with
  | BLOCKS_FIRST =>
    have reordered : number < op.blockSize * op.blockSize * op.inShape.C := by
      rwa [Nat.mul_comm, ← Nat.mul_assoc]
    obtain ⟨block, blockSmall, channel, channelSmall, rfl⟩ := exists_digits reordered
    obtain ⟨blockRow, rowSmall, blockColumn, columnSmall, rfl⟩ := exists_digits blockSmall
    exact ⟨channel, channelSmall, blockRow, rowSmall, blockColumn, columnSmall, rfl⟩
  | DEPTH_FIRST =>
    obtain ⟨row, rowSmall, blockColumn, columnSmall, rfl⟩ := exists_digits small
    obtain ⟨channel, channelSmall, blockRow, blockRowSmall, rfl⟩ := exists_digits rowSmall
    exact ⟨channel, channelSmall, blockRow, blockRowSmall, blockColumn, columnSmall, rfl⟩

theorem exists_position {shape : Shape} (order : DimsOrder) {number : Nat}
    (small : number < shape.C * shape.H * shape.W) :
    ∃ channel < shape.C, ∃ row < shape.H, ∃ column < shape.W,
      number = shape.position channel row column order := by
  cases order with
  | NCHW =>
    obtain ⟨line, lineSmall, column, columnSmall, rfl⟩ := exists_digits small
    obtain ⟨channel, channelSmall, row, rowSmall, rfl⟩ := exists_digits lineSmall
    exact ⟨channel, channelSmall, row, rowSmall, column, columnSmall, rfl⟩
  | NHWC =>
    have reordered : number < shape.H * shape.W * shape.C := by rwa [Nat.mul_comm, ← Nat.mul_assoc]
    obtain ⟨pixel, pixelSmall, channel, channelSmall, rfl⟩ := exists_digits reordered
    obtain ⟨row, rowSmall, column, columnSmall, rfl⟩ := exists_digits pixelSmall
    exact ⟨channel, channelSmall, row, rowSmall, column, columnSmall, rfl⟩

theorem exists_site {count : Nat}
    (small : count < op.outShape.C * op.outShape.H * op.outShape.W * elemTypeSize) :
    ∃ site, op.Has elemTypeSize site ∧ op.dstOffset + count = op.target elemTypeSize site := by
  obtain ⟨number, numberSmall, byte, byteSmall, rfl⟩ := exists_digits small
  obtain ⟨outChannel, outChannelSmall, row, rowSmall, column, columnSmall, rfl⟩ :=
    exists_position op.outOrder numberSmall
  obtain ⟨channel, channelSmall, blockRow, blockRowSmall, blockColumn, blockColumnSmall, rfl⟩ :=
    exists_channel outChannelSmall
  exact ⟨⟨channel, blockRow, blockColumn, row, column, byte⟩,
    ⟨channelSmall, blockRowSmall, blockColumnSmall, rowSmall, columnSmall, byteSmall⟩,
    (add_assoc _ _ _).symm⟩

theorem movesRightBytes_of_moved {subDMAs : List SubDMA} (batch : op.inShape.N = 1)
    (length : (executed subDMAs).length =
      op.outShape.C * op.outShape.H * op.outShape.W * (op.elemTypeSize / 8))
    (moved : ∀ site, op.Has (op.elemTypeSize / 8) site →
      (op.source (op.elemTypeSize / 8) site, op.target (op.elemTypeSize / 8) site) ∈
        executed subDMAs) : op.MovesRightBytes subDMAs := by
  have single : op.outShape.N = 1 := batch
  unfold SpaceToDepthDMAOp.MovesRightBytes
  rw [single, one_mul]
  refine exact_of_covered length fun count small => ?_
  obtain ⟨site, has, same⟩ := exists_site small
  rw [same]
  exact ⟨_, moved site has, site, has, rfl, rfl⟩

end

/-! ### What the loops move -/

section

variable {subShape : Shape} {descriptor elements : DMADescriptor} {dmaPortCount : Nat}

theorem length_executed (cursors : List Cursor) :
    (executed (createSubOps subShape descriptor dmaPortCount cursors)).length =
      cursors.length * (descriptor.numPlanes * descriptor.len) := by
  simp [executed, createSubOps, length_flatMap, length_transfer, Function.comp_def]

variable {srcStep dstStep inner outer outerStep elemSize source target : Nat}
  {restart : Nat → Nat → Nat} {cursor : Cursor}

section

variable (scaled : descriptor = elements.scaled elemSize)
  (restarted : ∀ start, restart start (start + inner * dstStep) = start + outerStep)
include scaled restarted

theorem length_loops :
    (executed (createSubOps subShape descriptor dmaPortCount
      (unrollLoops srcStep dstStep restart inner outer cursor))).length =
      outer * inner * (elements.numPlanes * (elements.len * elemSize)) := by
  rw [length_executed, unrollLoops_eq restarted, scaled]
  simp [DMADescriptor.scaled, length_flatMap]

theorem mem_loops (row turn plane srcChunk srcRest dstChunk dstRest byte : Nat)
    (inOuter : row < outer) (inInner : turn < inner) (inPlanes : plane < elements.numPlanes)
    (inLength : srcChunk * elements.srcWidth + srcRest < elements.len)
    (same : srcChunk * elements.srcWidth + srcRest = dstChunk * elements.dstWidth + dstRest)
    (inSrcChunk : srcRest < elements.srcWidth) (inDstChunk : dstRest < elements.dstWidth)
    (inElement : byte < elemSize)
    (isSource : source = cursor.srcOffset + (row * inner + turn) * srcStep +
      (plane * elements.srcPlaneStride + (srcChunk * elements.srcStride + srcRest)) * elemSize +
        byte) (isTarget : target = cursor.dstOffset + (row * outerStep + turn * dstStep) +
      (plane * elements.dstPlaneStride + (dstChunk * elements.dstStride + dstRest)) * elemSize +
        byte) :
    (source, target) ∈ executed (createSubOps subShape descriptor dmaPortCount
      (unrollLoops srcStep dstStep restart inner outer cursor)) := by
  rw [isSource, isTarget, scaled, unrollLoops_eq restarted]
  refine mem_flatMap.mpr ⟨_, mem_map_of_mem (mem_flatMap.mpr
    ⟨row, mem_range.mpr inOuter, mem_map.mpr ⟨turn, mem_range.mpr inInner, rfl⟩⟩), ?_⟩
  exact mem_transfer_scaled inPlanes inLength same inSrcChunk inDstChunk inElement

end

end

/-! ### The cases -/

namespace SpaceToDepthDMAOp

variable {op : SpaceToDepthDMAOp} {elemTypeSize : Nat} (dmaPortCount : Nat)

theorem channels : op.outShape.C = op.inShape.C * op.blockSize * op.blockSize := rfl

section

variable (batch : op.inShape.N = 1) (height : op.inShape.H = op.outShape.H * op.blockSize)
  (width : op.inShape.W = op.outShape.W * op.blockSize)

include batch height width

theorem right_blocksFirstNCHW2NCHW (inOrder : op.inOrder = .NCHW) (outOrder : op.outOrder = .NCHW)
    (mode : op.mode = .BLOCKS_FIRST) (pos : 0 < op.blockSize) :
    op.MovesRightBytes (op.unrollBlocksFirstNCHW2NCHW (op.elemTypeSize / 8) dmaPortCount) := by
  have exact : op.outShape.H * op.outShape.W * op.outShape.C / op.blockSize =
      op.outShape.H * op.outShape.W * op.inShape.C * op.blockSize := by
    rw [channels, ← Nat.mul_assoc, ← Nat.mul_assoc, Nat.mul_div_cancel _ pos]
  have scaled : generateBlocksFirstNCHW2NCHW op.inShape op.outShape (op.elemTypeSize / 8)
      op.blockSize = DMADescriptor.scaled ⟨op.blockSize, op.inShape.W, 1, op.blockSize, 1,
        op.outShape.W, op.outShape.H * op.outShape.W * op.inShape.C * op.blockSize,
        op.outShape.H * op.outShape.W * op.inShape.C⟩ (op.elemTypeSize / 8) := by
    simp [generateBlocksFirstNCHW2NCHW, DMADescriptor.scaled, exact]
  refine movesRightBytes_of_moved batch ?_ fun site has => ?_
  · rw [unrollBlocksFirstNCHW2NCHW, length_loops scaled fun _ => rfl, channels, width]
    ring
  · have line := digits_lt has.blockRow has.column
    refine mem_loops scaled (fun _ => rfl) site.channel site.row site.blockColumn
      (site.blockRow * op.outShape.W + site.column) 0 site.blockRow site.column site.byte
      has.channel has.row has.blockColumn ?_ (by simp) one_pos has.column has.byte ?_ ?_
    · simpa [width, Nat.mul_comm op.outShape.W] using line
    · simp only [source, inOrder, Shape.position, start, width, height]
      ring
    · simp only [target, targetElement, outOrder, mode, Shape.position, SpaceToDepthMode.channel,
        start]
      ring

omit height in
theorem right_blocksFirstNHWC2NHWC (inOrder : op.inOrder = .NHWC) (outOrder : op.outOrder = .NHWC)
    (mode : op.mode = .BLOCKS_FIRST) :
    op.MovesRightBytes (op.unrollBlocksFirstNHWC2NHWC (op.elemTypeSize / 8)) := by
  have scaled : generateBlocksFirstNHWC2NHWC op.inShape op.outShape (op.elemTypeSize / 8)
      op.blockSize = DMADescriptor.scaled ⟨op.blockSize,
        op.inShape.C * op.inShape.W * op.outShape.H, op.inShape.C * op.inShape.W,
        op.inShape.C * op.inShape.W * op.blockSize, op.inShape.C * op.inShape.W,
        op.inShape.C * op.blockSize, op.outShape.C,
        op.inShape.C * op.blockSize⟩ (op.elemTypeSize / 8) := rfl
  -- The only sub-DMA is that of loops with one turn
  have single : executed (op.unrollBlocksFirstNHWC2NHWC (op.elemTypeSize / 8)) =
      executed (createSubOps op.inShape (generateBlocksFirstNHWC2NHWC op.inShape op.outShape
        (op.elemTypeSize / 8) op.blockSize) 1
        (unrollLoops 0 0 (fun _ dstOffset => dstOffset) 1 1 op.start)) := rfl
  refine movesRightBytes_of_moved batch ?_ fun site has => ?_
  · rw [single, length_loops scaled fun _ => rfl, channels, width]
    ring
  · have pixel := digits_lt has.row (digits_lt has.column has.blockColumn)
    have block := digits_lt has.blockColumn has.channel
    rw [single]
    refine mem_loops scaled (fun _ => rfl) 0 0 site.blockRow site.row
      ((site.column * op.blockSize + site.blockColumn) * op.inShape.C + site.channel)
      (site.row * op.outShape.W + site.column) (site.blockColumn * op.inShape.C + site.channel)
      site.byte one_pos one_pos has.blockRow ?_ ?_ ?_ ?_ has.byte ?_ ?_
    · refine lt_of_eq_of_lt ?_ (lt_of_lt_of_eq (digits_lt pixel has.channel) ?_)
      · simp only [width]
        ring
      · simp only [width]
        ring
    · simp only [width]
      ring
    · refine lt_of_lt_of_eq (digits_lt (digits_lt has.column has.blockColumn) has.channel) ?_
      simp only [width]
      ring
    · simpa only [Nat.mul_comm] using block
    · simp only [source, inOrder, Shape.position, start, width]
      ring
    · simp only [target, targetElement, outOrder, mode, Shape.position, SpaceToDepthMode.channel,
        start, channels]
      ring

theorem right_blocksFirstNCHW2NHWC (inOrder : op.inOrder = .NCHW) (outOrder : op.outOrder = .NHWC)
    (mode : op.mode = .BLOCKS_FIRST) :
    op.MovesRightBytes (op.unrollBlocksFirstNCHW2NHWC (op.elemTypeSize / 8) dmaPortCount) := by
  have scaled : generateBlocksFirstNCHW2NHWC op.inShape op.outShape (op.elemTypeSize / 8)
      op.blockSize = DMADescriptor.scaled ⟨op.outShape.W, op.blockSize * op.blockSize, op.blockSize,
        op.inShape.W, op.blockSize, 1, op.inShape.C, op.outShape.C⟩ (op.elemTypeSize / 8) := by
    simp [generateBlocksFirstNCHW2NHWC, DMADescriptor.scaled]
  have restarted : ∀ start,
      (fun startDstIdx _ : Nat => startDstIdx + op.elemTypeSize / 8) start
        (start + op.outShape.H * (op.outShape.C * op.outShape.W * (op.elemTypeSize / 8))) =
      start + op.elemTypeSize / 8 := fun _ => rfl
  refine movesRightBytes_of_moved batch ?_ fun site has => ?_
  · rw [unrollBlocksFirstNCHW2NHWC, length_loops scaled restarted, channels]
    ring
  · refine mem_loops scaled restarted site.channel site.row site.column site.blockRow
      site.blockColumn (site.blockRow * op.blockSize + site.blockColumn) 0 site.byte has.channel
      has.row has.column (digits_lt has.blockRow has.blockColumn) (by simp) has.blockColumn
      one_pos has.byte ?_ ?_
    · simp only [source, inOrder, Shape.position, start, width, height]
      ring
    · simp only [target, targetElement, outOrder, mode, Shape.position, SpaceToDepthMode.channel,
        start]
      ring

theorem right_depthFirstNCHW2NCHW (inOrder : op.inOrder = .NCHW) (outOrder : op.outOrder = .NCHW)
    (mode : op.mode = .DEPTH_FIRST) :
    op.MovesRightBytes (op.unrollDepthFirstNCHW2NCHW (op.elemTypeSize / 8) dmaPortCount) := by
  have scaled : generateDepthFirstNCHW2NCHW op.inShape op.outShape (op.elemTypeSize / 8)
      op.blockSize = DMADescriptor.scaled ⟨op.blockSize, op.inShape.W, 1, op.blockSize, 1,
        op.outShape.W, op.outShape.H * op.outShape.W * op.blockSize,
        op.outShape.H * op.outShape.W⟩ (op.elemTypeSize / 8) := by
    simp [generateDepthFirstNCHW2NCHW, DMADescriptor.scaled]
  refine movesRightBytes_of_moved batch ?_ fun site has => ?_
  · rw [unrollDepthFirstNCHW2NCHW, length_loops scaled fun _ => rfl, channels, width]
    ring
  · have line := digits_lt has.blockRow has.column
    refine mem_loops scaled (fun _ => rfl) site.channel site.row site.blockColumn
      (site.blockRow * op.outShape.W + site.column) 0 site.blockRow site.column site.byte
      has.channel has.row has.blockColumn ?_ (by simp) one_pos has.column has.byte ?_ ?_
    · simpa [width, Nat.mul_comm op.outShape.W] using line
    · simp only [source, inOrder, Shape.position, start, width, height]
      ring
    · simp only [target, targetElement, outOrder, mode, Shape.position, SpaceToDepthMode.channel,
        start, width, height]
      ring

omit height in
theorem right_depthFirstNHWC2NHWC (inOrder : op.inOrder = .NHWC) (outOrder : op.outOrder = .NHWC)
    (mode : op.mode = .DEPTH_FIRST) :
    op.MovesRightBytes (op.unrollDepthFirstNHWC2NHWC (op.elemTypeSize / 8) dmaPortCount) := by
  have scaled : generateDepthFirstNHWC2NHWC op.inShape op.outShape (op.elemTypeSize / 8)
      op.blockSize = DMADescriptor.scaled ⟨op.inShape.C, op.inShape.W, 1, op.inShape.C, 1,
        op.blockSize, op.outShape.C, op.blockSize * op.blockSize⟩ (op.elemTypeSize / 8) := by
    simp [generateDepthFirstNHWC2NHWC, DMADescriptor.scaled]
  refine movesRightBytes_of_moved batch ?_ fun site has => ?_
  · rw [unrollDepthFirstNHWC2NHWC, length_loops scaled fun _ => rfl, channels, width]
    ring
  · have line := digits_lt has.column has.blockColumn
    refine mem_loops scaled (fun _ => rfl) site.row site.blockRow site.channel
      (site.column * op.blockSize + site.blockColumn) 0 site.column site.blockColumn site.byte
      has.row has.blockRow has.channel ?_ (by simp) one_pos has.blockColumn has.byte ?_ ?_
    · simpa [width] using line
    · simp only [source, inOrder, Shape.position, start, width]
      ring
    · simp only [target, targetElement, outOrder, mode, Shape.position, SpaceToDepthMode.channel,
        start, channels]
      ring

omit batch height width in
theorem executed_depthFirstNCHW2NHWC :
    executed (op.unrollDepthFirstNCHW2NHWC elemTypeSize dmaPortCount) =
      executed (createSubOps ⟨op.inShape.N, 1, op.inShape.H, op.inShape.W⟩
        (generateDepthFirstNCHW2NHWC op.inShape op.outShape elemTypeSize op.blockSize) dmaPortCount
        (unrollLoops (op.inShape.W * op.inShape.H * elemTypeSize)
          (op.blockSize * op.blockSize * elemTypeSize) (fun _ dstOffset => dstOffset) op.inShape.C 1
          op.start)) := by
  simp [unrollDepthFirstNCHW2NHWC, unrollLoops]

omit batch in
/-- The element of a plane is written where the distance of planes puts it. -/
theorem mem_depthFirstNCHW2NHWC (inOrder : op.inOrder = .NCHW) {site : Site}
    (has : op.Has elemTypeSize site) :
    (op.source elemTypeSize site, op.dstOffset + (site.channel * (op.blockSize * op.blockSize) +
        (site.blockRow * (op.outShape.W * op.inShape.H) +
          ((site.row * op.outShape.W + site.column) * op.outShape.C + site.blockColumn))) *
            elemTypeSize + site.byte) ∈
      executed (op.unrollDepthFirstNCHW2NHWC elemTypeSize dmaPortCount) := by
  have scaled : generateDepthFirstNCHW2NHWC op.inShape op.outShape elemTypeSize op.blockSize =
      DMADescriptor.scaled ⟨op.blockSize, op.inShape.W * op.outShape.H, op.inShape.W,
        op.inShape.W * op.blockSize, op.inShape.W, op.blockSize, op.outShape.C,
        op.outShape.W * op.inShape.H⟩ elemTypeSize := rfl
  have line : site.column * op.blockSize + site.blockColumn < op.inShape.W :=
    width ▸ digits_lt has.column has.blockColumn
  rw [executed_depthFirstNCHW2NHWC]
  refine mem_loops scaled (fun _ => rfl) 0 site.channel site.blockRow site.row
    (site.column * op.blockSize + site.blockColumn) (site.row * op.outShape.W + site.column)
    site.blockColumn site.byte one_pos has.channel has.blockRow ?_ ?_ line has.blockColumn
    has.byte ?_ ?_
  · exact (digits_lt has.row line).trans_eq (Nat.mul_comm _ _)
  · simp only [width]
    ring
  · simp only [source, inOrder, Shape.position, start, width, height]
    ring
  · simp only [start]
    ring

theorem right_depthFirstNCHW2NHWC (inOrder : op.inOrder = .NCHW) (outOrder : op.outOrder = .NHWC)
    (mode : op.mode = .DEPTH_FIRST)
    (fits : op.blockSize = 1 ∨ (op.outShape.H = 1 ∧ op.outShape.W = 1)) :
    op.MovesRightBytes (op.unrollDepthFirstNCHW2NHWC (op.elemTypeSize / 8) dmaPortCount) := by
  refine movesRightBytes_of_moved batch ?_ fun site has => ?_
  · rw [executed_depthFirstNCHW2NHWC, length_executed, unrollLoops_eq fun _ => rfl]
    simp only [generateDepthFirstNCHW2NHWC, channels, width, length_flatMap, length_map,
      length_range, range_one, map_singleton, sum_singleton]
    ring
  · have plane : site.blockRow * (op.outShape.W * op.inShape.H) = site.blockRow * op.blockSize := by
      rcases fits with one | ⟨oneRow, oneColumn⟩
      · have first : site.blockRow = 0 := lt_one_iff.mp (one ▸ has.blockRow)
        rw [first, zero_mul, zero_mul]
      · rw [height, oneRow, oneColumn, one_mul, one_mul]
    have moved := mem_depthFirstNCHW2NHWC dmaPortCount height width inOrder has
    rw [plane] at moved
    convert moved using 2
    simp only [target, targetElement, outOrder, mode, Shape.position, SpaceToDepthMode.channel]
    ring

omit batch height width in
/-- With two pixels or more and planes that are all pixels of a block row apart, the last element
of the last plane is behind all elements. -/
theorem behind_elements (channels blocks pixel : Nat) :
    (channels + 1) * (blocks + 2) * (blocks + 2) * (pixel + 2) ≤
      channels * ((blocks + 2) * (blocks + 2)) + ((blocks + 1) * ((pixel + 2) * (blocks + 2)) +
        ((pixel + 1) * ((channels + 1) * (blocks + 2) * (blocks + 2)) + (blocks + 1))) := by
  have split : channels * ((blocks + 2) * (blocks + 2)) + ((blocks + 1) * ((pixel + 2) *
      (blocks + 2)) + ((pixel + 1) * ((channels + 1) * (blocks + 2) * (blocks + 2)) +
        (blocks + 1))) = (channels + 1) * (blocks + 2) * (blocks + 2) * (pixel + 2) +
          ((blocks + 2) * (blocks + 1) * pixel + (blocks * blocks + 3 * blocks + 1)) := by ring
  rw [split]
  exact le_add_right _ _

/-- The last element of the last plane is written behind the end of the output. -/
theorem wrong_depthFirstNCHW2NHWC (inOrder : op.inOrder = .NCHW) (channel : 0 < op.inShape.C)
    (row : 0 < op.outShape.H) (column : 0 < op.outShape.W) (byte : 0 < op.elemTypeSize / 8)
    (block : 1 < op.blockSize) (several : 1 < op.outShape.H * op.outShape.W) :
    ¬op.MovesRightBytes (op.unrollDepthFirstNCHW2NHWC (op.elemTypeSize / 8) dmaPortCount) := by
  intro right
  obtain ⟨channels, sameChannels⟩ := Nat.exists_eq_add_one.mpr channel
  obtain ⟨rows, sameRows⟩ := Nat.exists_eq_add_one.mpr row
  obtain ⟨columns, sameColumns⟩ := Nat.exists_eq_add_one.mpr column
  obtain ⟨blocks, (sameBlocks : op.blockSize = blocks + 2)⟩ := Nat.exists_eq_add_of_le' block
  obtain ⟨pixel, (pixels : op.outShape.H * op.outShape.W = pixel + 2)⟩ :=
    Nat.exists_eq_add_of_le' several
  have has : op.Has (op.elemTypeSize / 8) ⟨channels, blocks + 1, blocks + 1, rows, columns, 0⟩ :=
    ⟨by rw [sameChannels]; exact Nat.lt_succ_self _, by rw [sameBlocks]; exact Nat.lt_succ_self _,
      by rw [sameBlocks]; exact Nat.lt_succ_self _, by rw [sameRows]; exact Nat.lt_succ_self _,
      by rw [sameColumns]; exact Nat.lt_succ_self _, byte⟩
  have moved := mem_depthFirstNCHW2NHWC dmaPortCount height width inOrder has
  have single : op.outShape.N = 1 := batch
  have small := (mem_range'_1.mp (right.1.mem_iff.mp (mem_map_of_mem moved))).2
  have lastPixel : rows * op.outShape.W + columns = pixel + 1 := by
    rw [sameRows, sameColumns] at pixels
    rw [sameColumns]
    linarith
  have planeStride : op.outShape.W * op.inShape.H = (pixel + 2) * (blocks + 2) := by
    rw [height, ← Nat.mul_assoc, Nat.mul_comm op.outShape.W, pixels, sameBlocks]
  have size : op.outShape.C * op.outShape.H * op.outShape.W =
      (channels + 1) * (blocks + 2) * (blocks + 2) * (pixel + 2) := by
    rw [Nat.mul_assoc, pixels, SpaceToDepthDMAOp.channels, sameChannels, sameBlocks]
  have behind := Nat.mul_le_mul_right (op.elemTypeSize / 8) (behind_elements channels blocks pixel)
  dsimp only at small
  rw [lastPixel, planeStride, size, single, Nat.one_mul, SpaceToDepthDMAOp.channels, sameChannels,
    sameBlocks] at small
  omega

end

/-! ### Every supported op -/

/-- Unrolled ops with a supported pair of layouts move the right bytes, except for depth first from
NCHW to NHWC. There the distance of planes is that of NCHW, which is right for a single plane or a
single pixel only. -/
theorem unroll_movesRightBytes_iff (op : SpaceToDepthDMAOp) (dmaPortCount : Nat)
    (batch : op.inShape.N = 1) (channels : 0 < op.inShape.C) (rows : 0 < op.inShape.H)
    (columns : 0 < op.inShape.W) (blocks : 0 < op.blockSize) (height : op.blockSize ∣ op.inShape.H)
    (width : op.blockSize ∣ op.inShape.W) (bytes : op.elemTypeSize % 8 = 0)
    (element : 0 < op.elemTypeSize) (layouts : ¬(op.inOrder = .NHWC ∧ op.outOrder = .NCHW)) :
    ∃ subDMAs, op.unroll dmaPortCount = .ok subDMAs ∧ (op.MovesRightBytes subDMAs ↔
      ¬(op.mode = .DEPTH_FIRST ∧ op.inOrder = .NCHW ∧ op.outOrder = .NHWC) ∨ op.blockSize = 1 ∨
        (op.inShape.H = op.blockSize ∧ op.inShape.W = op.blockSize)) := by
  have outHeight : op.inShape.H = op.outShape.H * op.blockSize := (Nat.div_mul_cancel height).symm
  have outWidth : op.inShape.W = op.outShape.W * op.blockSize := (Nat.div_mul_cancel width).symm
  have outRows : 0 < op.outShape.H := Nat.pos_of_mul_pos_right (outHeight ▸ rows)
  have outColumns : 0 < op.outShape.W := Nat.pos_of_mul_pos_right (outWidth ▸ columns)
  have noRest : ¬op.elemTypeSize % 8 ≠ 0 := not_not.mpr bytes
  unfold unroll
  cases inOrder : op.inOrder <;> cases outOrder : op.outOrder <;> cases mode : op.mode
  case NCHW.NCHW.BLOCKS_FIRST =>
    refine ⟨_, if_neg noRest, iff_of_true ?_ (inl (by simp))⟩
    exact right_blocksFirstNCHW2NCHW dmaPortCount batch outHeight outWidth inOrder outOrder mode
      blocks
  case NCHW.NCHW.DEPTH_FIRST =>
    refine ⟨_, if_neg noRest, iff_of_true ?_ (inl (by simp))⟩
    exact right_depthFirstNCHW2NCHW dmaPortCount batch outHeight outWidth inOrder outOrder mode
  case NHWC.NHWC.BLOCKS_FIRST =>
    refine ⟨_, if_neg noRest, iff_of_true ?_ (inl (by simp))⟩
    exact right_blocksFirstNHWC2NHWC batch outWidth inOrder outOrder mode
  case NHWC.NHWC.DEPTH_FIRST =>
    refine ⟨_, if_neg noRest, iff_of_true ?_ (inl (by simp))⟩
    exact right_depthFirstNHWC2NHWC dmaPortCount batch outWidth inOrder outOrder mode
  case NCHW.NHWC.BLOCKS_FIRST =>
    refine ⟨_, if_neg noRest, iff_of_true ?_ (inl (by simp))⟩
    exact right_blocksFirstNCHW2NHWC dmaPortCount batch outHeight outWidth inOrder outOrder mode
  case NCHW.NHWC.DEPTH_FIRST =>
    have onePixel : (op.inShape.H = op.blockSize ∧ op.inShape.W = op.blockSize) ↔
        op.outShape.H = 1 ∧ op.outShape.W = 1 := by
      rw [outHeight, outWidth, Nat.mul_eq_right blocks.ne', Nat.mul_eq_right blocks.ne']
    refine ⟨_, if_neg noRest, ?_⟩
    rw [onePixel]
    constructor
    · intro right
      by_contra neither
      obtain ⟨-, blockNe, pixelNe⟩ := by simpa only [not_or] using neither
      have several : op.outShape.H * op.outShape.W ≠ 1 := fun one =>
        pixelNe ⟨Nat.eq_one_of_mul_eq_one_right one, Nat.eq_one_of_mul_eq_one_left one⟩
      exact wrong_depthFirstNCHW2NHWC dmaPortCount batch outHeight outWidth inOrder channels outRows
        outColumns (Nat.div_pos (Nat.le_of_dvd element (Nat.dvd_of_mod_eq_zero bytes)) (by decide))
        (Nat.lt_of_le_of_ne blocks (Ne.symm blockNe))
        (Nat.lt_of_le_of_ne (Nat.mul_pos outRows outColumns) several.symm) right
    · rintro (other | fits)
      · exact absurd ⟨rfl, rfl, rfl⟩ other
      · exact right_depthFirstNCHW2NHWC dmaPortCount batch outHeight outWidth inOrder outOrder mode
          fits
  all_goals exact absurd ⟨inOrder, outOrder⟩ layouts

theorem unroll_movesRightBytes_iff_twoBlocks :
    ∃ subDMAs, (⟨⟨1, 1, 2, 4⟩, 8, .NHWC, .NHWC, 2, .DEPTH_FIRST, 0, 0, none⟩ :
      SpaceToDepthDMAOp).unroll 2 = .ok subDMAs ∧
        SpaceToDepthDMAOp.MovesRightBytes
          ⟨⟨1, 1, 2, 4⟩, 8, .NHWC, .NHWC, 2, .DEPTH_FIRST, 0, 0, none⟩ subDMAs := by
  obtain ⟨subDMAs, unrolled, right⟩ := unroll_movesRightBytes_iff
    ⟨⟨1, 1, 2, 4⟩, 8, .NHWC, .NHWC, 2, .DEPTH_FIRST, 0, 0, none⟩ 2 rfl (by decide) (by decide)
    (by decide) (by decide) (by decide) (by decide) rfl (by decide) (by decide)
  exact ⟨subDMAs, unrolled, right.mpr (by decide)⟩

/-- Two blocks of one channel, depth first from NCHW to NHWC: the second row of the second block is
written behind the end of the output. -/
theorem unroll_twoBlocks_outside : ¬∀ (op : SpaceToDepthDMAOp) (dmaPortCount : Nat),
    op.inShape.N = 1 → 0 < op.inShape.C → 0 < op.inShape.H → 0 < op.inShape.W → 0 < op.blockSize →
    op.blockSize ∣ op.inShape.H → op.blockSize ∣ op.inShape.W → op.elemTypeSize % 8 = 0 →
    0 < op.elemTypeSize → ¬(op.inOrder = .NHWC ∧ op.outOrder = .NCHW) →
    ∃ subDMAs, op.unroll dmaPortCount = .ok subDMAs ∧ op.MovesRightBytes subDMAs := by
  intro all
  obtain ⟨subDMAs, unrolled, right⟩ := all
    ⟨⟨1, 1, 2, 4⟩, 8, .NCHW, .NHWC, 2, .DEPTH_FIRST, 0, 0, none⟩ 1 rfl (by decide) (by decide)
    (by decide) (by decide) (by decide) (by decide) rfl (by decide) (by decide)
  cases unrolled
  exact absurd right.1 (by decide)

end SpaceToDepthDMAOp

end NpuPlugin.DMATransaction
