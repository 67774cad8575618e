/-
This file models DMA descriptors, how the DMA engine executes them, and how the dimensions of a
tensor in memory are reduced to the levels of a transfer. Sizes and strides of types are in bits,
those of patterns in bytes, and the innermost dimension comes last. The pattern describes exactly
the bytes of the elements when every level outside of the innermost one has elements of whole bytes.
-/

import Mathlib.Data.List.Induction
import Mathlib.Data.List.Perm.Subperm
import Mathlib.Data.List.Sort
import NpuPlugin.Library.Loop
import NpuPlugin.Library.StridedLoops

namespace NpuPlugin.DMATransaction

open List Nat StridedLoops

/-- `VPUIP::DMADescriptorAttr` -/
structure DMADescriptor where
  numPlanes : Nat
  len : Nat
  srcWidth : Nat
  srcStride : Nat
  srcPlaneStride : Nat
  dstWidth : Nat
  dstStride : Nat
  dstPlaneStride : Nat
deriving DecidableEq, Repr

/-- Where a byte is when chunks of a width are a stride apart. -/
def chunked (width stride count : Nat) : Nat := count / width * stride + count % width

/-- The bytes that are moved, each from its source to its destination. -/
def DMADescriptor.transfer (descriptor : DMADescriptor) (srcOffset dstOffset : Nat) :
    List (Nat × Nat) :=
  (List.range descriptor.numPlanes).flatMap fun plane =>
    (List.range descriptor.len).map fun count =>
      (srcOffset + plane * descriptor.srcPlaneStride +
          chunked descriptor.srcWidth descriptor.srcStride count,
        dstOffset + plane * descriptor.dstPlaneStride +
          chunked descriptor.dstWidth descriptor.dstStride count)

variable {descriptor : DMADescriptor} {srcOffset dstOffset rest width elemSize byte : Nat}

theorem length_transfer :
    (descriptor.transfer srcOffset dstOffset).length = descriptor.numPlanes * descriptor.len := by
  simp [DMADescriptor.transfer, length_flatMap]

/-- A descriptor that counts in elements as one that counts in bytes. -/
def DMADescriptor.scaled (descriptor : DMADescriptor) (elemSize : Nat) : DMADescriptor :=
  ⟨descriptor.numPlanes, descriptor.len * elemSize, descriptor.srcWidth * elemSize,
    descriptor.srcStride * elemSize, descriptor.srcPlaneStride * elemSize,
    descriptor.dstWidth * elemSize, descriptor.dstStride * elemSize,
    descriptor.dstPlaneStride * elemSize⟩

theorem digits_lt {first count : Nat} (firstSmall : first < count) (restSmall : rest < width) :
    first * width + rest < count * width :=
  calc first * width + rest < (first + 1) * width := by
        rw [Nat.succ_mul]; exact Nat.add_lt_add_left restSmall _
    _ ≤ count * width := mul_le_mul_right _ firstSmall

theorem chunked_scaled {stride chunk : Nat} (inChunk : rest < width) (inElement : byte < elemSize) :
    chunked (width * elemSize) (stride * elemSize) ((chunk * width + rest) * elemSize + byte) =
      (chunk * stride + rest) * elemSize + byte := by
  have split : (chunk * width + rest) * elemSize + byte =
      (rest * elemSize + byte) + width * elemSize * chunk := by ring
  have small : rest * elemSize + byte < width * elemSize := digits_lt inChunk inElement
  unfold chunked
  rw [split, add_mul_div_left _ _ (zero_lt_of_lt small), div_eq_of_lt small,
    add_mul_mod_self_left, mod_eq_of_lt small]
  ring

theorem mem_transfer_scaled {plane srcChunk srcRest dstChunk dstRest : Nat}
    (inPlanes : plane < descriptor.numPlanes)
    (inLength : srcChunk * descriptor.srcWidth + srcRest < descriptor.len)
    (same : srcChunk * descriptor.srcWidth + srcRest = dstChunk * descriptor.dstWidth + dstRest)
    (inSrcChunk : srcRest < descriptor.srcWidth) (inDstChunk : dstRest < descriptor.dstWidth)
    (inElement : byte < elemSize) :
    (srcOffset + (plane * descriptor.srcPlaneStride + (srcChunk * descriptor.srcStride + srcRest)) *
        elemSize + byte,
      dstOffset + (plane * descriptor.dstPlaneStride +
        (dstChunk * descriptor.dstStride + dstRest)) *
        elemSize + byte) ∈ (descriptor.scaled elemSize).transfer srcOffset dstOffset := by
  refine mem_flatMap.mpr ⟨plane, mem_range.mpr inPlanes, mem_map.mpr
    ⟨(srcChunk * descriptor.srcWidth + srcRest) * elemSize + byte,
      mem_range.mpr (digits_lt inLength inElement), ?_⟩⟩
  dsimp only [DMADescriptor.scaled]
  rw [chunked_scaled inSrcChunk inElement, same, chunked_scaled inDstChunk inElement, Prod.mk.injEq]
  exact ⟨by ring, by ring⟩

/-! ### Loops over transfers -/

/-- The offsets of a sub-DMA and its number. -/
structure Cursor where
  srcOffset : Nat
  dstOffset : Nat
  index : Nat
deriving DecidableEq, Repr

/-- A loop that creates a sub-DMA and then advances the offsets. -/
def unrollLoop (srcStep dstStep : Nat) : Nat → Cursor → List Cursor × Cursor
  | 0, cursor => ([], cursor)
  | turns + 1, cursor =>
    let next := ⟨cursor.srcOffset + srcStep, cursor.dstOffset + dstStep, cursor.index + 1⟩
    let rest := unrollLoop srcStep dstStep turns next
    (cursor :: rest.1, rest.2)

/-- A loop around such a loop. After each turn the destination is set from where the turn started
and from where it ended. -/
def unrollLoops (srcStep dstStep : Nat) (restart : Nat → Nat → Nat) (inner : Nat) :
    Nat → Cursor → List Cursor
  | 0, _ => []
  | outer + 1, cursor =>
    let turn := unrollLoop srcStep dstStep inner cursor
    turn.1 ++ unrollLoops srcStep dstStep restart inner outer
      { turn.2 with dstOffset := restart cursor.dstOffset turn.2.dstOffset }

theorem unrollLoop_eq (srcStep dstStep count : Nat) (cursor : Cursor) :
    unrollLoop srcStep dstStep count cursor =
      ((List.range count).map fun turn => ⟨cursor.srcOffset + turn * srcStep,
          cursor.dstOffset + turn * dstStep, cursor.index + turn⟩,
        ⟨cursor.srcOffset + count * srcStep, cursor.dstOffset + count * dstStep,
          cursor.index + count⟩) := by
  induction count generalizing cursor with
  | zero => simp [unrollLoop]
  | succ count ih =>
    rw [unrollLoop, ih, range_succ_eq_map, map_cons, map_map]
    simp [Function.comp_def, Nat.succ_mul, add_assoc, add_comm, add_left_comm]

theorem unrollLoops_eq {srcStep dstStep inner outerStep : Nat} {restart : Nat → Nat → Nat}
    (restarted : ∀ start, restart start (start + inner * dstStep) = start + outerStep)
    (outer : Nat) (cursor : Cursor) :
    unrollLoops srcStep dstStep restart inner outer cursor =
      (List.range outer).flatMap fun row => (List.range inner).map fun turn =>
        ⟨cursor.srcOffset + (row * inner + turn) * srcStep,
          cursor.dstOffset + (row * outerStep + turn * dstStep),
          cursor.index + (row * inner + turn)⟩ := by
  induction outer generalizing cursor with
  | zero => rfl
  | succ outer ih =>
    rw [unrollLoops, unrollLoop_eq, ih, range_succ_eq_map, flatMap_cons, flatMap_map]
    rw [restarted]
    congr 1
    · simp
    · refine flatMap_congr fun row _ => map_congr_left fun turn _ => ?_
      rw [Cursor.mk.injEq]
      exact ⟨by rw [Nat.succ_mul]; ring, by rw [Nat.succ_mul]; ring, by rw [Nat.succ_mul]; ring⟩

/-! ### Exact transfers -/

/-- Every byte of an output is written exactly once and none outside of it, and with a byte that
belongs there. -/
def Exact (belongs : Nat → Nat → Prop) (dstOffset size : Nat) (moves : List (Nat × Nat)) : Prop :=
  (moves.map Prod.snd).Perm (List.range' dstOffset size) ∧
    ∀ move ∈ moves, belongs move.1 move.2

/-- As many moves as there are bytes are exact when they include the one that each byte needs. -/
theorem exact_of_covered {belongs : Nat → Nat → Prop} {size : Nat} {moves : List (Nat × Nat)}
    (length : moves.length = size)
    (covered : ∀ count < size, ∃ source, (source, dstOffset + count) ∈ moves ∧
      belongs source (dstOffset + count)) : Exact belongs dstOffset size moves := by
  have every : ∀ byte ∈ range' dstOffset size, ∃ source, (source, byte) ∈ moves ∧
      belongs source byte := by
    intro byte inside
    obtain ⟨count, small, rfl⟩ := mem_range'.mp inside
    rw [one_mul]
    exact covered count small
  have same : (moves.map Prod.snd).Perm (range' dstOffset size) := by
    refine ((subperm_of_subset nodup_range' ?_).perm_of_length_le (by simp [length])).symm
    intro byte inside
    obtain ⟨source, moved, _⟩ := every byte inside
    exact mem_map_of_mem moved
  refine ⟨same, fun move moved => ?_⟩
  obtain ⟨source, needed, right⟩ := every move.2 (same.mem_iff.mp (mem_map_of_mem moved))
  rwa [inj_on_of_nodup_map (same.nodup_iff.mpr nodup_range') moved needed rfl]

/-! ### The levels of a transfer -/

/-- The memory view of a type. -/
structure NDType where
  elemSize : Nat
  memShape : List Nat
  memStrides : List Nat
deriving DecidableEq, Repr

structure DMAPattern where
  dims : List Nat
  strides : List Nat
deriving DecidableEq, Repr

/-- `undefined` stands for the first dimension of a type that has none. -/
inductive DMAFailure
  | undefined
  | notBytes (bits : Nat)
  | nonByteAlignedStride (strides : List Nat)
  | nonByteAlignedStrideAt (stride : Nat) (idx : Nat)
deriving DecidableEq, Repr

def alignToByteBoundary (val : Nat) : Nat := if val % 8 ≠ 0 then val + (8 - val % 8) else val

/-- `Bit::to<Byte>` -/
def toByte (bits : Nat) : Except DMAFailure Nat :=
  if bits % 8 = 0 then .ok (bits / 8) else .error (.notBytes bits)

structure Reduction where
  accumulatedSize : Nat
  previousStrideInBits : Nat
  reducedBitDims : List Nat
  reducedBitStrides : List Nat
deriving DecidableEq, Repr

/-- One dimension with the stride of the next outer one; a stride that is not compact is pushed. -/
def reduceDim (elemSize : Nat) (reduction : Reduction) (current : Nat × Nat) : Reduction :=
  let accumulatedSize := reduction.accumulatedSize * current.1
  if current.1 * reduction.previousStrideInBits < current.2 then
    ⟨elemSize, current.2, reduction.reducedBitDims ++ [accumulatedSize],
      reduction.reducedBitStrides ++ [current.2]⟩
  else ⟨accumulatedSize, current.2, reduction.reducedBitDims, reduction.reducedBitStrides⟩

/-- Flush out remaining accumulated sizes. -/
def flush (elemSize frontStride : Nat) (reduction : Reduction) : List Nat × List Nat :=
  if elemSize < reduction.accumulatedSize ∨ reduction.reducedBitDims = [] then
    (reduction.reducedBitDims ++ [reduction.accumulatedSize],
      reduction.reducedBitStrides ++ [frontStride])
  else (reduction.reducedBitDims, reduction.reducedBitStrides)

/-- The sizes and strides in bits as those of a pattern. -/
def toPattern (elemSize : Nat) (reducedBitDims reducedBitStrides : List Nat) :
    Except DMAFailure DMAPattern :=
  -- Align all dims to byte size and divide by elemSize except innermost dim
  match reducedBitDims.map fun bitDim => alignToByteBoundary bitDim / elemSize with
  | [] => .error .undefined
  | front :: outer => do
    -- Innermost dim is special
    let front ← toByte (front * elemSize)
    if reducedBitStrides.dropLast.any fun bitStride => bitStride % 8 ≠ 0 then
      .error (.nonByteAlignedStride reducedBitStrides)
    else
      let reducedStrides := reducedBitStrides.map fun bitStride => alignToByteBoundary bitStride / 8
      -- Validate byte alignment for strides
      match reducedBitStrides.dropLast.find? fun bitStride => bitStride % 8 ≠ 0 with
      | some bitStride =>
        .error (.nonByteAlignedStrideAt bitStride (reducedBitStrides.idxOf bitStride))
      | none => return ⟨(front :: outer).reverse, reducedStrides.reverse⟩

def reduceDimsForDma (ndType : NDType) : Except DMAFailure DMAPattern :=
  match ndType.memShape, ndType.memStrides with
  | frontSize :: _, frontStride :: _ =>
    -- Extend shape and strides to accommodate for element type size and batch stride
    let memShape := ndType.memShape ++ [ndType.elemSize]
    let memStrides := frontStride * frontSize :: ndType.memStrides
    let reduction := (memShape.zip memStrides).reverse.foldl (reduceDim ndType.elemSize)
      ⟨1, 1, [], []⟩
    let reduced := flush ndType.elemSize (frontStride * frontSize) reduction
    toPattern ndType.elemSize reduced.1 reduced.2
  | _, _ => .error .undefined

/-- The bytes that the DMA engine accesses from an offset on, in order. The stride of a dimension is
the step of the next outer one. -/
def access : List Nat → List Nat → Nat → List Nat
  | [size], _, offset => (List.range size).map fun idx => offset + idx
  | size :: inner :: dims, _ :: stride :: strides, offset =>
    (List.range size).flatMap fun idx =>
      access (inner :: dims) (stride :: strides) (offset + idx * stride)
  | _, _, _ => []

def DMAPattern.accessed (pattern : DMAPattern) : List Nat := access pattern.dims pattern.strides 0

/-- Rows of four elements of half a byte with a distance of four bytes. -/
example : (reduceDimsForDma ⟨4, [2, 4], [32, 4]⟩).map DMAPattern.accessed = .ok [0, 1, 4, 5] := by
  decide

/-! ### The dimensions of a type -/

/-- The dimensions, the innermost one first. -/
def NDType.levels (ndType : NDType) : List Level :=
  (List.zipWith Level.mk ndType.memShape ndType.memStrides).reverse

/-- The bits of an element, as the innermost level. -/
def NDType.bits (ndType : NDType) : Level := ⟨ndType.elemSize, 1⟩

/-- The dimensions after compact ones have been merged. The first level counts bits. -/
def NDType.collapsed (ndType : NDType) : List Level := collapse ndType.bits ndType.levels

/-- Every size with the stride of the next outer dimension. -/
def pairs (outermost : Nat) : Nat → List Level → List (Nat × Nat)
  | size, [] => [(size, outermost)]
  | size, level :: rest => (size, level.step) :: pairs outermost level.count rest

theorem pairs_concat (outermost size : Nat) (levels : List Level) (level : Level) :
    pairs outermost size (levels ++ [level]) =
      pairs level.step size levels ++ [(level.count, outermost)] := by
  induction levels generalizing size with
  | nil => rfl
  | cons first rest ih => exact congrArg ((size, first.step) :: ·) (ih first.count)

theorem pairs_eq (size outermost : Nat) {shape strides : List Nat}
    (length : strides.length = shape.length) :
    ((shape ++ [size]).zip (outermost :: strides)).reverse =
      pairs outermost size (List.zipWith Level.mk shape strides).reverse := by
  induction shape generalizing outermost strides with
  | nil =>
    obtain rfl := length_eq_zero_iff.mp length
    rfl
  | cons first rest ih =>
    cases strides with
    | nil => cases length
    | cons stride others =>
      rw [cons_append, zip_cons_cons, reverse_cons, zipWith_cons_cons,
        reverse_cons, ih stride (Nat.succ.inj length), pairs_concat]

/-! ### The loop over the dimensions -/

/-- The sizes of levels of which the first one counts units, and the others elements. -/
def sizesOf (unit elemSize : Nat) : List Level → List Nat
  | [] => []
  | level :: rest => unit * level.count :: rest.map fun other => elemSize * other.count

/-- The current size is that of the level that is being merged, and the stride before it is where
this level stops without the current dimension. -/
structure Merging (reduction : Reduction) (size unit : Nat) (current : Level) : Prop where
  size_eq : reduction.accumulatedSize * size = unit * current.count
  reach_eq : size * reduction.previousStrideInBits = current.reach

/-- The outermost stride is not larger than what the outermost dimension reaches over. -/
def Closed (outermost : Nat) : Level → List Level → Prop
  | current, [] => outermost ≤ current.reach
  | _, level :: rest => Closed outermost level rest

theorem Closed.of_reach {outermost : Nat} {first second : Level} {levels : List Level}
    (closed : Closed outermost first levels) (same : first.reach = second.reach) :
    Closed outermost second levels := by
  cases levels with
  | nil => exact closed.trans_eq same
  | cons level rest => exact closed

variable {elemSize outermost : Nat} {levels : List Level}

/-- What the loop adds: the sizes of the levels, of which the last one is still open, and the steps
of all but the first one. -/
structure Adds (before after : Reduction) (unit elemSize : Nat) (levels : List Level) : Prop where
  dims : after.reducedBitDims ++ [after.accumulatedSize] =
    before.reducedBitDims ++ sizesOf unit elemSize levels
  strides : after.reducedBitStrides = before.reducedBitStrides ++ levels.tail.map Level.step

section Dimension

variable {size unit stride : Nat} {reduction : Reduction} {current : Level}

theorem Merging.reduceDim_push (merging : Merging reduction size unit current)
    (apart : current.reach < stride) : reduceDim elemSize reduction (size, stride) =
      ⟨elemSize, stride, reduction.reducedBitDims ++ [unit * current.count],
        reduction.reducedBitStrides ++ [stride]⟩ := by
  unfold reduceDim
  rw [merging.reach_eq, merging.size_eq, if_pos apart]

theorem Merging.reduceDim_keep (merging : Merging reduction size unit current)
    (compact : stride ≤ current.reach) : reduceDim elemSize reduction (size, stride) =
      ⟨unit * current.count, stride, reduction.reducedBitDims, reduction.reducedBitStrides⟩ := by
  unfold reduceDim
  rw [merging.reach_eq, merging.size_eq, if_neg compact.not_gt]

end Dimension

theorem collapse_eq_cons (current : Level) (levels : List Level) :
    ∃ count others, collapse current levels = ⟨count, current.step⟩ :: others := by
  induction levels generalizing current with
  | nil => exact ⟨current.count, [], rfl⟩
  | cons level rest ih =>
    unfold collapse
    split
    · exact ⟨current.count, _, rfl⟩
    · exact ih _

theorem foldl_pairs {size unit : Nat} {reduction : Reduction} {current : Level}
    (merging : Merging reduction size unit current) (nested : Nested current.reach levels)
    (closed : Closed outermost current levels) :
    Adds reduction ((pairs outermost size levels).foldl (reduceDim elemSize) reduction) unit
      elemSize (collapse current levels) := by
  induction levels generalizing size unit reduction current with
  | nil =>
    show Adds reduction (reduceDim elemSize reduction (size, outermost)) _ _ _
    rw [merging.reduceDim_keep closed]
    exact ⟨rfl, (append_nil _).symm⟩
  | cons level rest ih =>
    obtain ⟨apart, inside⟩ := nested
    show Adds reduction ((pairs outermost level.count rest).foldl (reduceDim elemSize)
      (reduceDim elemSize reduction (size, level.step))) _ _ _
    unfold collapse
    split
    · next gap =>
      rw [merging.reduceDim_push gap]
      obtain ⟨dims, strides⟩ := ih
        (⟨rfl, rfl⟩ : Merging ⟨elemSize, level.step, _, _⟩ level.count elemSize level) inside closed
      obtain ⟨count, others, first⟩ := collapse_eq_cons level rest
      rw [first] at dims strides ⊢
      refine ⟨dims.trans ?_, strides.trans ?_⟩
      · exact append_assoc _ _ _
      · exact append_assoc _ _ _
    · next compact =>
      have meets : level.step = current.reach := le_antisymm (not_lt.mp compact) apart
      have reach : level.reach =
          (⟨current.count * level.count, current.step⟩ : Level).reach := by
        unfold Level.reach at *
        rw [meets]
        ring
      have further : Closed outermost level rest := closed
      rw [merging.reduceDim_keep meets.le]
      obtain ⟨dims, strides⟩ := ih
        (⟨mul_assoc _ _ _, reach⟩ : Merging ⟨unit * current.count, level.step, _, _⟩ level.count
          unit ⟨current.count * level.count, current.step⟩)
        (reach ▸ inside) (further.of_reach reach)
      exact ⟨dims, strides⟩

/-! ### The reduced dimensions -/

/-- The type is described by one stride for every dimension, which overlap nowhere, and the elements
are whole bytes or parts of one. -/
structure NDType.WellFormed (ndType : NDType) : Prop where
  rank : ndType.memStrides.length = ndType.memShape.length
  elemSize_pos : 0 < ndType.elemSize
  width : ndType.elemSize ∣ 8 ∨ 8 ∣ ndType.elemSize
  nested : Nested ndType.elemSize ndType.levels

/-- An outermost level of a single turn is not kept. -/
def kept (outer : List Level) : List Level :=
  match outer.getLast? with
  | none => []
  | some last => if 1 < last.count then outer else outer.dropLast

theorem kept_concat (outer : List Level) (last : Level) :
    kept (outer ++ [last]) = if 1 < last.count then outer ++ [last] else outer := by
  unfold kept
  rw [getLast?_concat, dropLast_concat]

theorem flush_eq {before after : Reduction} {frontStride : Nat} {inner : Level}
    {outer : List Level} (elemSize_pos : 0 < elemSize) (dimsNil : before.reducedBitDims = [])
    (stridesNil : before.reducedBitStrides = [])
    (adds : Adds before after 1 elemSize (inner :: outer)) :
    ∃ stride, flush elemSize frontStride after =
      (inner.count :: (kept outer).map fun level => elemSize * level.count,
        (kept outer).map Level.step ++ [stride]) := by
  have dims : after.reducedBitDims ++ [after.accumulatedSize] =
      inner.count :: outer.map fun level => elemSize * level.count := by
    rw [adds.dims, dimsNil, nil_append, sizesOf, one_mul]
  have strides : after.reducedBitStrides = outer.map Level.step := by
    rw [adds.strides, stridesNil, nil_append, tail_cons]
  unfold flush
  rcases eq_nil_or_concat outer with nil | ⟨front, last, concat⟩
  · rw [nil] at dims strides ⊢
    obtain ⟨none, single⟩ := append_inj' (dims.trans (nil_append _).symm) rfl
    rw [none, strides, if_pos (.inr rfl), head_eq_of_cons_eq single]
    exact ⟨frontStride, rfl⟩
  · rw [concat_eq_append] at concat
    rw [concat, kept_concat]
    rw [concat, map_append, ← cons_append] at dims
    rw [concat] at strides
    obtain ⟨pushed, single⟩ := append_inj' dims rfl
    rw [pushed, strides, head_eq_of_cons_eq single]
    by_cases more : 1 < last.count
    · have larger : elemSize < elemSize * last.count :=
        (Nat.lt_mul_iff_one_lt_right elemSize_pos).mpr more
      rw [if_pos (.inl larger), if_pos more, map_append, map_append, cons_append]
      exact ⟨frontStride, rfl⟩
    · have small : ¬ elemSize < elemSize * last.count := fun larger =>
        more (Nat.lt_of_mul_lt_mul_left (((Nat.mul_one _).trans_lt larger)))
      rw [if_neg (not_or.mpr ⟨small, cons_ne_nil _ _⟩), if_neg more, map_append]
      exact ⟨last.step, rfl⟩

theorem closed_concat {current last : Level} (levels : List Level)
    (within : outermost ≤ last.reach) : Closed outermost current (levels ++ [last]) := by
  induction levels generalizing current with
  | nil => exact within
  | cons level rest ih => exact ih

variable {ndType : NDType}

theorem NDType.WellFormed.nested_reach (wellFormed : ndType.WellFormed) :
    Nested ndType.bits.reach ndType.levels := by
  unfold NDType.bits Level.reach
  rw [mul_one]
  exact wellFormed.nested

theorem reduceDimsForDma_eq (wellFormed : ndType.WellFormed) (occupied : ndType.memShape ≠ [])
    {inner : Level} {outer : List Level} (collapsed : ndType.collapsed = inner :: outer) :
    ∃ stride, reduceDimsForDma ndType = toPattern ndType.elemSize
      (inner.count :: (kept outer).map fun level => ndType.elemSize * level.count)
      ((kept outer).map Level.step ++ [stride]) := by
  obtain ⟨elemSize, memShape, memStrides⟩ := ndType
  have rank : memStrides.length = memShape.length := wellFormed.rank
  cases memShape with
  | nil => exact absurd rfl occupied
  | cons frontSize sizes =>
    cases memStrides with
    | nil => cases rank
    | cons frontStride strides =>
      have closed : Closed (frontStride * frontSize) ⟨elemSize, 1⟩
          (zipWith Level.mk (frontSize :: sizes) (frontStride :: strides)).reverse := by
        rw [zipWith_cons_cons, reverse_cons]
        exact closed_concat _ (mul_comm frontStride frontSize).le
      have nested : Nested (⟨elemSize, 1⟩ : Level).reach
          (zipWith Level.mk (frontSize :: sizes) (frontStride :: strides)).reverse :=
        wellFormed.nested_reach
      have adds := @foldl_pairs elemSize _ _ elemSize 1 ⟨1, 1, [], []⟩ _ ⟨rfl, rfl⟩ nested closed
      have levels : collapse ⟨elemSize, 1⟩ (zipWith Level.mk (frontSize :: sizes)
          (frontStride :: strides)).reverse = inner :: outer := collapsed
      rw [← pairs_eq elemSize _ rank, levels] at adds
      obtain ⟨stride, flushed⟩ := @flush_eq elemSize _ _ (frontStride * frontSize) _ _
        wellFormed.elemSize_pos rfl rfl adds
      refine ⟨stride, ?_⟩
      unfold reduceDimsForDma
      dsimp only
      rw [flushed]

/-! ### The engine -/

theorem access_eq (front stride offset : Nat) (levels : List Level) :
    access (front :: levels.map Level.count).reverse (levels.map Level.step ++ [stride]).reverse
      offset = (nest (List.range front) levels).map fun inner => offset + inner := by
  induction levels using reverseRecOn generalizing stride offset with
  | nil => rfl
  | append_singleton levels level ih =>
    obtain ⟨inner, dims, reversed⟩ := exists_cons_of_ne_nil
      (reverse_ne_nil_iff.mpr (cons_ne_nil front (levels.map Level.count)))
    have sizes : (front :: (levels ++ [level]).map Level.count).reverse =
        level.count :: inner :: dims := by
      rw [map_append, ← cons_append, map_singleton, reverse_concat, reversed]
    have strides : ((levels ++ [level]).map Level.step ++ [stride]).reverse =
        stride :: level.step :: (levels.map Level.step).reverse := by
      rw [reverse_concat, map_append, map_singleton, reverse_concat]
    have inside : ∀ idx, access (inner :: dims)
        (level.step :: (levels.map Level.step).reverse) (offset + idx * level.step) =
          (nest (range front) levels).map fun inner => offset + idx * level.step + inner := by
      intro idx
      rw [← ih level.step, reversed, reverse_concat]
    have outside : nest (range front) (levels ++ [level]) =
        repeated (nest (range front) levels) level := foldl_concat _ _ _ _
    rw [sizes, strides, access, outside]
    unfold repeated
    rw [map_flatMap]
    refine congrArg (fun run => flatMap run _) (funext fun idx => ?_)
    rw [inside, map_map]
    refine congrArg (fun run => map run _) (funext fun inner => ?_)
    show offset + idx * level.step + inner = offset + (inner + idx * level.step)
    rw [add_assoc, add_comm inner]

/-! ### From bits to bytes -/

theorem alignToByteBoundary_eq (val : Nat) : alignToByteBoundary val = 8 * ((val + 7) / 8) := by
  unfold alignToByteBoundary
  split <;> omega

def roundedCount (elemSize : Nat) (level : Level) : Nat :=
  alignToByteBoundary (elemSize * level.count) / elemSize

/-- A level with its step in bytes. -/
def inBytes (level : Level) : Level := ⟨level.count, level.step / 8⟩

/-- A level of the pattern. -/
def rounded (elemSize : Nat) (level : Level) : Level :=
  ⟨roundedCount elemSize level, level.step / 8⟩

variable {elemSize : Nat} {levels : List Level}

theorem le_roundedCount (elemSize_pos : 0 < elemSize) (level : Level) :
    level.count ≤ roundedCount elemSize level := by
  refine (le_div_iff_mul_le elemSize_pos).mpr ?_
  rw [alignToByteBoundary_eq, mul_comm]
  omega

theorem roundedCount_of_zero {level : Level} (zero : level.count = 0) :
    roundedCount elemSize level = 0 := by
  unfold roundedCount
  rw [zero, mul_zero]
  exact Nat.zero_div elemSize

theorem roundedCount_eq_iff (elemSize_pos : 0 < elemSize) (width : elemSize ∣ 8 ∨ 8 ∣ elemSize)
    (level : Level) : roundedCount elemSize level = level.count ↔ 8 ∣ elemSize * level.count := by
  have whole : elemSize ∣ alignToByteBoundary (elemSize * level.count) := by
    rw [alignToByteBoundary_eq]
    rcases width with part | bytes
    · exact part.mul_right _
    · obtain ⟨number, same⟩ := (bytes.mul_right level.count : 8 ∣ elemSize * level.count)
      have exact : 8 * ((elemSize * level.count + 7) / 8) = elemSize * level.count := by omega
      rw [exact]
      exact dvd_mul_right _ _
  unfold roundedCount
  rw [Nat.div_eq_iff_eq_mul_right elemSize_pos whole, alignToByteBoundary_eq]
  omega

theorem reached_inBytes (aligned : ∀ level ∈ levels, 8 ∣ level.step) (offset : Nat) :
    Reached levels offset ↔ ∃ bytes, Reached (levels.map inBytes) bytes ∧ offset = 8 * bytes := by
  induction levels generalizing offset with
  | nil =>
    constructor
    · exact fun zero => ⟨0, rfl, zero⟩
    · rintro ⟨bytes, zero, same⟩
      rw [same, (zero : bytes = 0)]
      rfl
  | cons level rest ih =>
    have later := ih fun other mem => aligned other
      (mem_cons_of_mem _ mem)
    obtain ⟨step, same⟩ := aligned level mem_cons_self
    have scaled : ∀ idx, idx * level.step = 8 * (idx * (level.step / 8)) := by
      intro idx
      rw [same, Nat.mul_div_cancel_left step (by decide)]
      ring
    constructor
    · rintro ⟨idx, small, other, reached, total⟩
      obtain ⟨bytes, inside, eight⟩ := (later other).mp reached
      refine ⟨idx * (level.step / 8) + bytes, ⟨idx, small, bytes, inside, rfl⟩, ?_⟩
      rw [total, eight, scaled, mul_add]
    · rintro ⟨bytes, ⟨idx, small, other, inside, here⟩, total⟩
      refine ⟨idx, small, 8 * other, (later _).mpr ⟨other, inside, rfl⟩, ?_⟩
      rw [total, here, scaled, mul_add]
      rfl

theorem nested_inBytes {width : Nat} (nested : Nested width levels)
    (aligned : ∀ level ∈ levels, 8 ∣ level.step) :
    Nested ((width + 7) / 8) (levels.map inBytes) := by
  induction levels generalizing width with
  | nil => trivial
  | cons level rest ih =>
    obtain ⟨apart, inside⟩ := nested
    obtain ⟨step, same⟩ := aligned level mem_cons_self
    have later := ih inside (forall_mem_cons.mp aligned).2
    have reach : (level.reach + 7) / 8 = (inBytes level).reach := by
      show (level.count * level.step + 7) / 8 = level.count * (level.step / 8)
      rw [same, Nat.mul_div_cancel_left step (by decide), mul_left_comm]
      omega
    refine ⟨?_, reach ▸ later⟩
    unfold inBytes
    dsimp only
    omega

/-! ### The pattern -/

theorem dvd_of_collapse {current inner : Level} {outer : List Level}
    (whole : elemSize ∣ current.count) (collapsed : collapse current levels = inner :: outer) :
    elemSize ∣ inner.count := by
  induction levels generalizing current with
  | nil =>
    cases collapsed
    exact whole
  | cons level rest ih =>
    unfold collapse at collapsed
    split at collapsed
    · cases collapsed
      exact whole
    · exact ih (whole.mul_right level.count) collapsed

theorem toByte_ok {bits bytes : Nat} (res : toByte bits = .ok bytes) : bits = 8 * bytes := by
  unfold toByte at res
  split at res
  · cases res
    omega
  · cases res

theorem alignToByteBoundary_elements (width : elemSize ∣ 8 ∨ 8 ∣ elemSize) {bits : Nat}
    (whole : elemSize ∣ bits) :
    alignToByteBoundary bits / elemSize * elemSize = 8 * ((bits + 7) / 8) := by
  have aligned : elemSize ∣ 8 * ((bits + 7) / 8) := by
    rcases width with part | bytes
    · exact part.mul_right _
    · obtain ⟨number, same⟩ := bytes.trans whole
      have exact : 8 * ((bits + 7) / 8) = bits := by omega
      rw [exact]
      exact whole
  rw [alignToByteBoundary_eq, Nat.div_mul_cancel aligned]

theorem toPattern_accessed (width : elemSize ∣ 8 ∨ 8 ∣ elemSize) {bits stride : Nat}
    (whole : elemSize ∣ bits) {pattern : DMAPattern}
    (res : toPattern elemSize (bits :: levels.map fun level => elemSize * level.count)
      (levels.map Level.step ++ [stride]) = .ok pattern) :
    (∀ level ∈ levels, 8 ∣ level.step) ∧ pattern.accessed =
      nest (List.range ((bits + 7) / 8)) (levels.map (rounded elemSize)) := by
  unfold toPattern at res
  rw [map_cons, dropLast_concat] at res
  obtain ⟨front, converted, rest⟩ := Run.bind_ok res
  have bytes := toByte_ok converted
  rw [alignToByteBoundary_elements width whole] at bytes
  have frontEq : front = (bits + 7) / 8 := by omega
  split at rest
  · cases rest
  next unfit =>
  have aligned : ∀ level ∈ levels, 8 ∣ level.step := by
    intro level mem
    by_contra odd
    refine unfit (any_eq_true.mpr ⟨level.step, mem_map_of_mem mem, ?_⟩)
    exact decide_eq_true fun zero => odd (dvd_of_mod_eq_zero zero)
  split at rest
  · cases rest
  · cases rest
    refine ⟨aligned, ?_⟩
    have counts : ((levels.map fun level => elemSize * level.count).map fun bitDim =>
        alignToByteBoundary bitDim / elemSize) =
          (levels.map (rounded elemSize)).map Level.count := by
      rw [map_map, map_map]
      rfl
    have steps : (levels.map Level.step ++ [stride]).map (fun bitStride =>
        alignToByteBoundary bitStride / 8) = (levels.map (rounded elemSize)).map Level.step ++
          [alignToByteBoundary stride / 8] := by
      rw [map_append, map_map, map_map]
      refine congrArg (· ++ _) (map_congr_left fun level mem => ?_)
      obtain ⟨number, same⟩ := aligned level mem
      show alignToByteBoundary level.step / 8 = level.step / 8
      rw [alignToByteBoundary_eq]
      omega
    unfold DMAPattern.accessed
    rw [counts, steps, access_eq, frontEq]
    exact (map_congr_left fun inner _ => zero_add inner).trans (map_id _)

/-! ### The bytes of a type -/

variable (ndType : NDType)

/-- A byte holds at least a part of an element. -/
def NDType.Holds (byte : Nat) : Prop :=
  ∃ element, Reached ndType.levels element ∧
    ∃ bit, element ≤ bit ∧ bit < element + ndType.elemSize ∧ bit / 8 = byte

/-- The pattern visits the bytes of the type, in the order of memory and each once. -/
structure NDType.Described (pattern : DMAPattern) : Prop where
  ordered : pattern.accessed.Pairwise (· < ·)
  exact : ∀ byte, byte ∈ pattern.accessed ↔ ndType.Holds byte

/-- The levels of the pattern outside of the innermost one. -/
def NDType.outer : List Level := kept ndType.collapsed.tail

def NDType.Skipped : Prop :=
  ∃ level ∈ ndType.collapsed.head?.toList ++ ndType.outer, level.count = 0

/-- The type has elements, and every level outside of the innermost one has elements of whole
bytes. -/
structure NDType.Even : Prop where
  occupied : ∀ size ∈ ndType.memShape, 0 < size
  whole : ∀ level ∈ ndType.outer, 8 ∣ ndType.elemSize * level.count

variable {ndType : NDType}

theorem reached_pos {offset : Nat} (reached : Reached levels offset) :
    ∀ level ∈ levels, 0 < level.count := by
  induction levels generalizing offset with
  | nil => exact forall_mem_nil _
  | cons first rest ih =>
    obtain ⟨idx, small, other, inside, _⟩ := reached
    intro level mem
    rcases mem_cons.mp mem with same | later
    · rw [same]
      exact zero_lt_of_lt small
    · exact ih inside level later

theorem reached_zero (pos : ∀ level ∈ levels, 0 < level.count) : Reached levels 0 := by
  induction levels with
  | nil => rfl
  | cons first rest ih =>
    refine ⟨0, pos first mem_cons_self, 0, ih (forall_mem_cons.mp pos).2, ?_⟩
    rw [zero_mul]

section

variable (wellFormed : ndType.WellFormed)
include wellFormed

/-- Merged levels have turns if and only if all of the merged ones have. -/
theorem NDType.WellFormed.collapsed_pos_iff :
    (∀ level ∈ ndType.collapsed, 0 < level.count) ↔ ∀ level ∈ ndType.levels, 0 < level.count := by
  have same := reached_collapse wellFormed.nested_reach
  constructor
  · intro pos level mem
    exact reached_pos ((same 0).mp (reached_zero pos)) level (mem_cons_of_mem _ mem)
  · intro pos
    refine reached_pos ((same 0).mpr (reached_zero fun level mem => ?_))
    rcases mem_cons.mp mem with bits | inside
    · rw [bits]
      exact wellFormed.elemSize_pos
    · exact pos level inside

theorem NDType.WellFormed.holds_iff (byte : Nat) :
    ndType.Holds byte ↔ ∃ bit, Reached ndType.collapsed bit ∧ bit / 8 = byte := by
  have same := reached_collapse wellFormed.nested_reach
  constructor
  · rintro ⟨element, reached, bit, above, below, inByte⟩
    refine ⟨bit, (same bit).mpr ⟨bit - element, ?_, element, reached, ?_⟩, inByte⟩
    · unfold NDType.bits
      dsimp only
      omega
    · unfold NDType.bits
      dsimp only
      omega
  · rintro ⟨bit, reached, inByte⟩
    obtain ⟨idx, small, element, inside, here⟩ := (same bit).mp reached
    unfold NDType.bits at small here
    dsimp only at small here
    exact ⟨element, inside, bit, by omega, by omega, inByte⟩

theorem NDType.WellFormed.map_count_levels :
    ndType.levels.map Level.count = ndType.memShape.reverse := by
  have counts : ∀ {shape strides : List Nat}, strides.length = shape.length →
      (zipWith Level.mk shape strides).map Level.count = shape := by
    intro shape
    induction shape with
    | nil => exact fun _ => rfl
    | cons size rest ih =>
      intro strides length
      cases strides with
      | nil => cases length
      | cons stride others => exact congrArg (size :: ·) (ih (succ.inj length))
  unfold NDType.levels
  rw [map_reverse, counts wellFormed.rank]

theorem NDType.WellFormed.occupied_iff :
    (∀ size ∈ ndType.memShape, 0 < size) ↔ ∀ level ∈ ndType.collapsed, 0 < level.count := by
  have counts := wellFormed.map_count_levels
  rw [wellFormed.collapsed_pos_iff]
  constructor
  · intro pos level mem
    have inShape : level.count ∈ ndType.memShape.reverse := counts ▸ mem_map_of_mem mem
    exact pos _ (mem_reverse.mp inShape)
  · intro pos size mem
    have inLevels : size ∈ ndType.levels.map Level.count := counts ▸ mem_reverse.mpr mem
    obtain ⟨level, inside, same⟩ := mem_map.mp inLevels
    exact same ▸ pos level inside

end

/-! ### The levels that are kept -/

theorem kept_initial (outer : List Level) : kept outer <+: outer := by
  rcases eq_nil_or_concat outer with nil | ⟨front, last, concat⟩
  · rw [nil]
    exact prefix_refl _
  · rw [concat, concat_eq_append, kept_concat]
    split
    · exact prefix_refl _
    · exact prefix_append _ _

theorem reached_append_single {step offset : Nat} :
    Reached (levels ++ [⟨1, step⟩]) offset ↔ Reached levels offset := by
  induction levels generalizing offset with
  | nil => exact reached_single
  | cons level rest ih => exact reached_cons (fun other => @ih other) offset

/-- A level that is not kept has no influence. -/
theorem reached_kept {outer : List Level} (pos : ∀ level ∈ outer, 0 < level.count)
    (offset : Nat) : Reached outer offset ↔ Reached (kept outer) offset := by
  rcases eq_nil_or_concat outer with nil | ⟨front, ⟨count, step⟩, concat⟩
  · rw [nil]
    rfl
  · rw [concat_eq_append] at concat
    rw [concat, kept_concat]
    split
    · rfl
    · next few =>
      have here : 0 < count := pos ⟨count, step⟩ (concat ▸ mem_concat_self)
      have one : count = 1 := le_antisymm (not_lt.mp few) here
      rw [one]
      exact reached_append_single

theorem nested_prefix {width : Nat} {front : List Level} (within : front <+: levels)
    (nested : Nested width levels) : Nested width front := by
  induction front generalizing width levels with
  | nil => trivial
  | cons level rest ih =>
    cases levels with
    | nil => exact absurd (prefix_nil.mp within) (cons_ne_nil _ _)
    | cons first others =>
      obtain ⟨rfl, later⟩ := cons_prefix_cons.mp within
      exact ⟨nested.1, ih later nested.2⟩

/-! ### When the pattern describes the type -/

theorem described_of_exact (wellFormed : ndType.WellFormed) {inner : Level} {outer : List Level}
    (collapsed : ndType.collapsed = inner :: outer) (unit : inner.step = 1)
    (aligned : ∀ level ∈ kept outer, 8 ∣ level.step) :
    (nest (List.range ((inner.count + 7) / 8)) ((kept outer).map inBytes)).Pairwise (· < ·) ∧
      ((∀ level ∈ outer, 0 < level.count) → ∀ byte,
        byte ∈ nest (List.range ((inner.count + 7) / 8)) ((kept outer).map inBytes) ↔
          ndType.Holds byte) := by
  have nested : Nested inner.count (kept outer) := by
    have all : Nested 1 ndType.collapsed := nested_collapse le_rfl wellFormed.nested_reach
    rw [collapsed] at all
    have outside := nested_prefix (kept_initial outer) all.2
    unfold Level.reach at outside
    rw [unit, mul_one] at outside
    exact outside
  constructor
  · exact nest_sorted pairwise_lt_range (fun offset => mem_range.mp)
      (nested_inBytes nested aligned)
  · intro pos byte
    rw [mem_nest, wellFormed.holds_iff, collapsed]
    constructor
    · rintro ⟨first, small, bytes, reached, same⟩
      have inRange := mem_range.mp small
      refine ⟨8 * first + 8 * bytes, ⟨8 * first, by omega, 8 * bytes, ?_, ?_⟩, by omega⟩
      · exact (reached_kept pos _).mpr
          ((reached_inBytes aligned _).mpr ⟨bytes, reached, rfl⟩)
      · rw [unit, mul_one]
    · rintro ⟨bit, ⟨idx, small, other, reached, here⟩, inByte⟩
      obtain ⟨bytes, inside, eight⟩ :=
        (reached_inBytes aligned _).mp ((reached_kept pos _).mp reached)
      rw [unit, mul_one] at here
      exact ⟨idx / 8, mem_range.mpr (by omega), bytes, inside, by omega⟩

section Products

variable {Item : Type} {first second : Item → Nat} {items : List Item}

theorem prod_pos (pos : ∀ item ∈ items, 0 < first item) : 0 < (items.map first).prod := by
  induction items with
  | nil => exact one_pos
  | cons item rest ih => exact mul_pos (pos item mem_cons_self) (ih (forall_mem_cons.mp pos).2)

section

variable (le : ∀ item ∈ items, first item ≤ second item)
include le

theorem prod_le : (items.map first).prod ≤ (items.map second).prod := by
  induction items with
  | nil => exact le_rfl
  | cons item rest ih => exact Nat.mul_le_mul (le item mem_cons_self) (ih (forall_mem_cons.mp le).2)

/-- Larger counts have the same product only when they are the same. -/
theorem counts_eq_of_prod (pos : ∀ item ∈ items, 0 < first item)
    (same : (items.map second).prod = (items.map first).prod) :
    ∀ item ∈ items, second item = first item := by
  induction items with
  | nil => exact forall_mem_nil _
  | cons item rest ih =>
    have here := le item mem_cons_self
    have leRest : ∀ other ∈ rest, first other ≤ second other := (forall_mem_cons.mp le).2
    have posRest : ∀ other ∈ rest, 0 < first other := (forall_mem_cons.mp pos).2
    have rests := prod_le leRest
    rw [map_cons, prod_cons, map_cons, prod_cons] at same
    have equal : second item = first item := by
      refine le_antisymm (le_of_mul_le_mul_right ?_ (prod_pos posRest)) here
      exact (mul_le_mul_left _ rests).trans same.le
    rw [equal] at same
    have later := ih leRest posRest
      (Nat.eq_of_mul_eq_mul_left (pos item mem_cons_self) same)
    intro other mem
    rcases mem_cons.mp mem with head | tail
    · rw [head]
      exact equal
    · exact later other tail

end

end Products

/-- A pattern visits exactly the bytes of its type if and only if every level outside of the
innermost one has elements of whole bytes, or nothing is visited because a level has no turns. -/
theorem described_iff (wellFormed : ndType.WellFormed) {pattern : DMAPattern}
    (res : reduceDimsForDma ndType = .ok pattern) :
    ndType.Described pattern ↔ ndType.Skipped ∨ ndType.Even := by
  have occupied : ndType.memShape ≠ [] := by
    intro empty
    unfold reduceDimsForDma at res
    rw [empty] at res
    cases res
  have elemSize_pos := wellFormed.elemSize_pos
  obtain ⟨bits, outer, collapsed⟩ := collapse_eq_cons ndType.bits ndType.levels
  have wholeBits : ndType.elemSize ∣ bits :=
    dvd_of_collapse (dvd_refl ndType.elemSize : ndType.elemSize ∣ ndType.bits.count) collapsed
  obtain ⟨stride, reduced⟩ := reduceDimsForDma_eq wellFormed occupied collapsed
  obtain ⟨aligned, accessed⟩ := toPattern_accessed wellFormed.width wholeBits
    (reduced.symm.trans res)
  obtain ⟨sorted, exact⟩ := described_of_exact wellFormed collapsed rfl aligned
  have outerEq : ndType.outer = kept outer :=
    congrArg (fun levels : List Level => kept levels.tail) collapsed
  have occupied_iff : (∀ size ∈ ndType.memShape, 0 < size) ↔
      0 < bits ∧ ∀ level ∈ outer, 0 < level.count := by
    rw [wellFormed.occupied_iff, NDType.collapsed, collapsed]
    exact forall_mem_cons
  have skipped_iff : ndType.Skipped ↔ bits = 0 ∨ ∃ level ∈ kept outer, level.count = 0 := by
    unfold NDType.Skipped
    rw [outerEq, NDType.collapsed, collapsed]
    exact exists_mem_cons_iff ..
  rw [skipped_iff]
  constructor
  · intro described
    by_cases skipped : bits = 0 ∨ ∃ level ∈ kept outer, level.count = 0
    · exact .inl skipped
    · obtain ⟨bitsPos, keptPos⟩ : 0 < bits ∧ ∀ level ∈ kept outer, 0 < level.count :=
        ⟨Nat.pos_of_ne_zero fun zero => skipped (.inl zero), fun level mem =>
          Nat.pos_of_ne_zero fun zero => skipped (.inr ⟨level, mem, zero⟩)⟩
      have roundedPos : ∀ level ∈ kept outer, 0 < roundedCount ndType.elemSize level :=
        fun level mem => (keptPos level mem).trans_le (le_roundedCount elemSize_pos level)
      have visited : 0 ∈ pattern.accessed := by
        rw [accessed]
        refine mem_nest.mpr ⟨0, mem_range.mpr (by omega), 0, reached_zero ?_, rfl⟩
        intro level mem
        obtain ⟨other, inside, rfl⟩ := mem_map.mp mem
        exact roundedPos other inside
      obtain ⟨bit, reached, _⟩ := (wellFormed.holds_iff 0).mp ((described.exact 0).mp visited)
      have sizes := wellFormed.occupied_iff.mpr (reached_pos reached)
      have outerPos := (occupied_iff.mp sizes).2
      have same := described.ordered.eq_of_mem_iff sorted fun byte =>
        (described.exact byte).trans (exact outerPos byte).symm
      have lengths := congrArg length same
      rw [accessed, length_nest, length_nest, map_map, map_map, length_range] at lengths
      refine .inr ⟨sizes, fun level mem => ?_⟩
      rw [outerEq] at mem
      exact (roundedCount_eq_iff elemSize_pos wellFormed.width level).mp
        (counts_eq_of_prod (fun level _ => le_roundedCount elemSize_pos level) keptPos
          (Nat.eq_of_mul_eq_mul_left (by omega) lengths) level mem)
  · rintro (skipped | even)
    · have none : ∀ byte, byte ∉ pattern.accessed := by
        intro byte mem
        rw [accessed] at mem
        obtain ⟨first, small, bytes, reached, _⟩ := mem_nest.mp mem
        have inRange := mem_range.mp small
        rcases skipped with noBits | ⟨level, inside, noTurns⟩
        · omega
        · have turns : 0 < roundedCount ndType.elemSize level :=
            reached_pos reached _ (mem_map_of_mem inside)
          exact absurd (roundedCount_of_zero noTurns) turns.ne'
      refine ⟨eq_nil_iff_forall_not_mem.mpr none ▸ List.Pairwise.nil, fun byte =>
        ⟨fun mem => absurd mem (none byte), fun holds => ?_⟩⟩
      obtain ⟨bit, reached, _⟩ := (wellFormed.holds_iff byte).mp holds
      obtain ⟨bitsPos, outerPos⟩ :=
        occupied_iff.mp (wellFormed.occupied_iff.mpr (reached_pos reached))
      rcases skipped with noBits | ⟨level, inside, noTurns⟩
      · omega
      · have turns := outerPos level ((kept_initial outer).subset inside)
        omega
    · have same : pattern.accessed = nest (range ((bits + 7) / 8))
          ((kept outer).map inBytes) := by
        rw [accessed]
        refine congrArg (nest _) (map_congr_left fun level mem => ?_)
        have counts := (roundedCount_eq_iff elemSize_pos wellFormed.width level).mpr
          (even.whole level (outerEq ▸ mem))
        exact congrArg (fun count => Level.mk count (level.step / 8)) counts
      refine ⟨same ▸ sorted, fun byte => ?_⟩
      rw [same]
      exact exact (occupied_iff.mp even.occupied).2 byte

theorem described_iff_halves : (⟨16, [1, 2, 3, 4], [1024, 512, 128, 32]⟩ : NDType).Described
    ⟨[2, 12, 2], [128, 64, 4]⟩ :=
  (@described_iff ⟨16, [1, 2, 3, 4], [1024, 512, 128, 32]⟩
    ⟨rfl, by decide, by decide, by decide, by decide, by decide, by decide, trivial⟩
    ⟨[2, 12, 2], [128, 64, 4]⟩ (by decide)).mpr (.inr ⟨by decide, by decide⟩)

def nibbleRows : NDType := ⟨4, [3, 4], [32, 4]⟩

/-- The number of rows is rounded to whole bytes of elements. -/
theorem nibbleRows_not_described : nibbleRows.WellFormed ∧
    reduceDimsForDma nibbleRows = .ok ⟨[4, 2], [12, 4]⟩ ∧
    ¬ nibbleRows.Described ⟨[4, 2], [12, 4]⟩ := by
  refine ⟨⟨rfl, by decide, by decide, by decide, by decide, trivial⟩, by decide,
    fun described => ?_⟩
  have fourth : 12 ∈ (⟨[4, 2], [12, 4]⟩ : DMAPattern).accessed := by decide
  obtain ⟨element, ⟨column, left, _, ⟨row, below, _, rfl, rfl⟩, rfl⟩, bit, _, inside, inByte⟩ :=
    (described.exact 12).mp fourth
  have columns : column < 4 := left
  have rows : row < 3 := below
  have last : bit < column * 4 + (row * 32 + 0) + 4 := inside
  omega

end NpuPlugin.DMATransaction
