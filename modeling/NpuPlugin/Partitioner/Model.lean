/-
This file models `vpux::Partitioner`: the list of free gaps of a contiguous memory, and the
operations that cut a block out of a gap (`alloc`, `allocFixed`) or give one back (`free`).
Addresses are unsigned 64-bit words; the asserts of the source are compiled out of a release build.
-/

import NpuPlugin.Library.Intervals
import NpuPlugin.Library.Words

namespace NpuPlugin

open Intervals

/-- Address arithmetic on `AddressType`, a `uint64_t`: modulo `2 ^ 64`. -/
abbrev addAddress (first second : Nat) : Nat := Words.add 64 first second

abbrev subAddress (first second : Nat) : Nat := Words.sub 64 first second

def InvalidAddress : Nat := 2 ^ 64 - 1

inductive Direction
  | up
  | down
deriving DecidableEq, Repr

/-- A free range `[begin, end)` of addresses. -/
abbrev Gap := Intervals.Interval Nat

def Gap.size (gap : Gap) : Nat := subAddress gap.upper gap.lower

/-- `vpux::alignValUp` on unsigned values. -/
def alignValUp (value align : Nat) : Nat :=
  addAddress value (subAddress align 1) / align * align % 2 ^ 64

structure Partitioner where
  gaps : List Gap
  totalSize : Nat
deriving DecidableEq, Repr

namespace Partitioner

/-- The constructor: all of the memory is one gap. -/
def init (totalSize : Nat) : Partitioner := ⟨[⟨0, totalSize⟩], totalSize⟩

/-! ### Choosing a gap -/

variable (gap : Gap)

/-- `getAddrFromGap`: the address an aligned block takes in the gap, at its lower end going
up and at its upper end going down. -/
def getAddrFromGap (size alignment : Nat) (dir : Direction) : Nat :=
  if gap.size < size then InvalidAddress
  else match dir with
    | .up =>
      let alignedBegin := alignValUp gap.lower alignment
      if gap.upper < addAddress alignedBegin size then InvalidAddress else alignedBegin
    | .down =>
      let alignedBegin := alignValUp (subAddress gap.upper size) alignment
      if gap.upper < addAddress alignedBegin size then
        if alignedBegin < addAddress gap.lower alignment then InvalidAddress
        else
          let moved := subAddress alignedBegin alignment
          if gap.upper < addAddress moved size then InvalidAddress else moved
      else alignedBegin

/-- The position of the smallest suitable gap met so far, and its size. -/
abbrev MinimalGap := Option Nat × Nat

/-- One turn of the loops of `chooseMinimalGap`. -/
def visitGap (gaps : List Gap) (size alignment : Nat) (dir : Direction)
    (found : MinimalGap) (position : Nat) : MinimalGap :=
  match gaps[position]? with
  | none => found
  | some gap =>
    if getAddrFromGap gap size alignment dir ≠ InvalidAddress ∧ gap.size < found.2 then
      (some position, gap.size)
    else found

/-- The positions the loop of `chooseMinimalGap` visits: all but the last one in the
direction of the allocation. -/
def visitedPositions (numGaps : Nat) : Direction → List Nat
  | .up => List.range (numGaps - 1)
  | .down => (List.range (numGaps - 1)).reverse.map (· + 1)

/-- The last gap in the direction of the allocation. -/
def lastPosition (numGaps : Nat) : Direction → Nat
  | .up => numGaps - 1
  | .down => 0

/-- The search of `chooseMinimalGap`: the smallest suitable gap, where the last gap in the
direction is taken only when no other fits. -/
def minimalGapPosition (gaps : List Gap) (size alignment : Nat) (dir : Direction) : Option Nat :=
  let found := (visitedPositions gaps.length dir).foldl (visitGap gaps size alignment dir)
    (none, 2 ^ 64 - 1)
  match found.1 with
  | some position => some position
  | none =>
    match gaps[lastPosition gaps.length dir]? with
    | none => none
    | some gap =>
      if getAddrFromGap gap size alignment dir ≠ InvalidAddress then
        some (lastPosition gaps.length dir)
      else none

/-- What is left of a gap when a block is cut out of it, as `useGap` writes it. -/
def cutGap (alignedBegin size : Nat) : List Gap :=
  let newGapLeft := subAddress alignedBegin gap.lower
  let newGapRight := subAddress gap.upper (addAddress alignedBegin size)
  if newGapLeft = 0 ∧ newGapRight = 0 then []
  else if 0 < newGapLeft ∧ newGapRight = 0 then [⟨gap.lower, alignedBegin⟩]
  else if newGapLeft = 0 ∧ 0 < newGapRight then [⟨addAddress alignedBegin size, gap.upper⟩]
  else [⟨gap.lower, alignedBegin⟩, ⟨addAddress alignedBegin size, gap.upper⟩]

/-- `alloc`, which is `chooseMinimalGap` followed by `useGap`. -/
def alloc (par : Partitioner) (size alignment : Nat) (dir : Direction) : Nat × Partitioner :=
  match minimalGapPosition par.gaps size alignment dir with
  | none => (InvalidAddress, par)
  | some position =>
    match par.gaps[position]? with
    | none => (InvalidAddress, par)
    | some gap =>
      let alignedBegin := getAddrFromGap gap size alignment dir
      (alignedBegin, { par with
        gaps := par.gaps.take position ++
          (cutGap gap alignedBegin size ++ par.gaps.drop (position + 1)) })

/-! ### Fixed blocks -/

/-- What `allocFixed` leaves of the gap that starts at the block. -/
def cutFront (size : Nat) : List Gap :=
  if gap.size = size then [] else [{ gap with lower := addAddress gap.lower size }]

/-- What `allocFixed` leaves of the gap that starts before the block. -/
def cutInside (addr size : Nat) : List Gap :=
  let fin := addAddress addr size
  if gap.upper = fin then [{ gap with upper := addr }]
  else
    let tailSize := subAddress gap.upper fin
    [{ gap with upper := addr }, ⟨fin, addAddress fin tailSize⟩]

/-- `allocFixed`. `std::lower_bound` splits the list at the first gap that does not begin
below the address. Stepping back from the beginning of the list is undefined behaviour. -/
def allocFixed (par : Partitioner) (addr size : Nat) : Option Partitioner :=
  let below := par.gaps.takeWhile fun gap => decide (gap.lower < addr)
  let above := par.gaps.dropWhile fun gap => decide (gap.lower < addr)
  match above with
  | gap :: rest =>
    if gap.lower = addr then some { par with gaps := below ++ (cutFront gap size ++ rest) }
    else below.getLast?.map fun last =>
      { par with gaps := below.dropLast ++ (cutInside last addr size ++ above) }
  | [] => below.getLast?.map fun last =>
      { par with gaps := below.dropLast ++ (cutInside last addr size ++ above) }

/-! ### Giving a block back -/

/-- `prepend`: the gap grows downwards. -/
def prepend (size : Nat) : Gap := { gap with lower := subAddress gap.lower size }

/-- `append`: the gap grows upwards. -/
def append (size : Nat) : Gap := { gap with upper := addAddress gap.upper size }

/-- The loop of `free` over neighbouring gaps. It returns when the block lies between two of
them. -/
def freeBetween (addr size : Nat) : List Gap → Option (List Gap)
  | gap :: nextGap :: rest =>
    let fin := addAddress addr size
    if gap.upper ≤ addr ∧ fin ≤ nextGap.lower then
      if addr = gap.upper then
        if fin = nextGap.lower then some (append gap (addAddress size nextGap.size) :: rest)
        else some (append gap size :: nextGap :: rest)
      else if fin = nextGap.lower then some (gap :: prepend nextGap size :: rest)
      else some (gap :: ⟨addr, fin⟩ :: nextGap :: rest)
    else (freeBetween addr size (nextGap :: rest)).map (gap :: ·)
  | _ => none

/-- The end of `free`: the block is compared with the last gap. -/
def freeLast (addr size : Nat) : List Gap → List Gap
  | [] => []
  | [lastGap] =>
    let fin := addAddress addr size
    if fin < lastGap.lower then [⟨addr, fin⟩, lastGap]
    else if fin = lastGap.lower then [prepend lastGap size]
    else if addr = lastGap.upper then [append lastGap size]
    else [lastGap, ⟨addr, fin⟩]
  | gap :: rest => gap :: freeLast addr size rest

/-- The gap list after `free`. -/
def freeGaps (addr size : Nat) (gaps : List Gap) : List Gap :=
  let fin := addAddress addr size
  match gaps with
  | [] => [⟨addr, fin⟩]
  | firstGap :: rest =>
    if fin = firstGap.lower then prepend firstGap size :: rest
    else if fin < firstGap.lower then ⟨addr, fin⟩ :: firstGap :: rest
    else match freeBetween addr size gaps with
      | some gaps' => gaps'
      | none => freeLast addr size gaps

def free (par : Partitioner) (addr size : Nat) : Partitioner :=
  { par with gaps := freeGaps addr size par.gaps }

/-! ### Keeping the gaps apart -/

open Intervals List Nat Or

/-- The addresses of a block. -/
def InBlock (addr size point : Nat) : Prop := addr ≤ point ∧ point < addr + size

/-- A gap list of a memory of the given size: separated, and inside the memory. -/
structure GapsWellFormed (totalSize : Nat) (gaps : List Gap) : Prop where
  separated : Separated gaps
  bounded : ∀ gap ∈ gaps, gap.upper ≤ totalSize

/-! ### Address arithmetic inside the memory -/

variable (gap : Gap) (value align : Nat)

theorem size_eq (pos : gap.lower < gap.upper) (fits : gap.upper < 2 ^ 64) :
    Gap.size gap = gap.upper - gap.lower :=
  Words.sub_of_le 64 _ _ pos.le (pos.trans fits)
    ((sub_le _ _).trans_lt fits)

theorem alignValUp_eq (pos : 0 < align) (fits : value + (align - 1) < 2 ^ 64) :
    alignValUp value align = (value + (align - 1)) / align * align := by
  have below : (value + (align - 1)) / align * align ≤ value + (align - 1) := div_mul_le_self _ _
  rw [alignValUp, subAddress, Words.sub_of_le 64 align 1 pos (by omega) (by omega), addAddress,
    Words.add_of_lt 64 _ _ fits]
  exact mod_eq_of_lt (below.trans_lt fits)

theorem alignValUp_spec (pos : 0 < align) (fits : value + (align - 1) < 2 ^ 64) :
    align ∣ alignValUp value align ∧ value ≤ alignValUp value align ∧
      alignValUp value align < value + align := by
  rw [alignValUp_eq value align pos fits]
  have division := div_add_mod' (value + (align - 1)) align
  have remainder := mod_lt (value + (align - 1)) pos
  exact ⟨dvd_mul_left _ _, by omega, by omega⟩

/-- The address sums `getAddrFromGap` forms on a gap stay below `2 ^ 64`. -/
def GapArithmeticFits (gap : Gap) (size alignment : Nat) : Direction → Prop
  | .up => gap.lower + (alignment - 1) < 2 ^ 64 ∧ alignValUp gap.lower alignment + size < 2 ^ 64
  | .down => gap.upper - size + (alignment - 1) < 2 ^ 64 ∧
      alignValUp (gap.upper - size) alignment + size < 2 ^ 64 ∧
      (gap.upper < alignValUp (gap.upper - size) alignment + size → gap.lower + alignment < 2 ^ 64)

/-- An aligned block at the address lies in the gap. -/
structure Holds (gap : Gap) (size alignment addr : Nat) : Prop where
  aligned : alignment ∣ addr
  lower : gap.lower ≤ addr
  upper : addr + size ≤ gap.upper

/-- The first address comes no later in the direction than the second one. -/
def NoLater : Direction → Nat → Nat → Prop
  | .up, first, second => first ≤ second
  | .down, first, second => second ≤ first

/-- The address is the first one in the direction of an aligned block in the gap. -/
def Placed (gap : Gap) (size alignment : Nat) (dir : Direction) (addr : Nat) : Prop :=
  Holds gap size alignment addr ∧
    ∀ other, Holds gap size alignment other → NoLater dir addr other

theorem add_le_of_dvd {alignment first second : Nat} (divides : alignment ∣ first)
    (also : alignment ∣ second) (less : first < second) : first + alignment ≤ second := by
  have := le_of_dvd (Nat.sub_pos_of_lt less) (dvd_sub also divides)
  omega

section

variable (size alignment : Nat) (dir : Direction) (pos : gap.lower < gap.upper)
  (bounded : gap.upper < 2 ^ 64) (alignmentPositive : 0 < alignment)
  (fits : size ≤ gap.upper - gap.lower → GapArithmeticFits gap size alignment dir)
include size alignment dir pos bounded alignmentPositive fits

/-- `getAddrFromGap` finds the first place in the direction, if there is one. -/
theorem getAddrFromGap_cases : (getAddrFromGap gap size alignment dir = InvalidAddress ∧
      ∀ addr, ¬ Holds gap size alignment addr) ∨
    Placed gap size alignment dir (getAddrFromGap gap size alignment dir) := by
  unfold getAddrFromGap
  rw [size_eq gap pos bounded]
  by_cases small : gap.upper - gap.lower < size
  · rw [if_pos small]
    exact inl ⟨rfl, fun addr ⟨_, lower, upper⟩ => by omega⟩
  rw [if_neg small]
  have arithmetic := fits (not_lt.mp small)
  cases dir with
  | up =>
    obtain ⟨alignFits, sumFits⟩ := arithmetic
    obtain ⟨divides, above, below⟩ :=
      alignValUp_spec gap.lower alignment alignmentPositive alignFits
    have least : ∀ addr, Holds gap size alignment addr →
        alignValUp gap.lower alignment ≤ addr := fun addr ⟨aligned, lower, _⟩ => by
      by_contra less
      have := add_le_of_dvd aligned divides (not_le.mp less)
      omega
    simp only [addAddress, Words.add_of_lt 64 _ _ sumFits]
    by_cases beyond : gap.upper < alignValUp gap.lower alignment + size
    · rw [if_pos beyond]
      refine inl ⟨rfl, fun addr holds => ?_⟩
      have := least addr holds
      have := holds.upper
      omega
    · rw [if_neg beyond]
      exact inr ⟨⟨divides, above, not_lt.mp beyond⟩, least⟩
  | down =>
    obtain ⟨alignFits, sumFits, movedFits⟩ := arithmetic
    obtain ⟨divides, above, below⟩ :=
      alignValUp_spec (gap.upper - size) alignment alignmentPositive alignFits
    simp only [subAddress, Words.sub_of_le 64 gap.upper size (by omega) (by omega) (by omega),
      addAddress, Words.add_of_lt 64 _ _ sumFits]
    by_cases beyond : gap.upper < alignValUp (gap.upper - size) alignment + size
    · have before : ∀ addr, Holds gap size alignment addr →
          addr + alignment ≤ alignValUp (gap.upper - size) alignment :=
        fun addr ⟨aligned, _, upper⟩ => add_le_of_dvd aligned divides (by omega)
      simp only [if_pos beyond, Words.add_of_lt 64 _ _ (movedFits beyond)]
      by_cases low : alignValUp (gap.upper - size) alignment < gap.lower + alignment
      · rw [if_pos low]
        refine inl ⟨rfl, fun addr holds => ?_⟩
        have := before addr holds
        have := holds.lower
        omega
      · -- The aligned address lies past the last one that fits, so one step back does fit.
        have moved := Words.sub_of_le 64 (alignValUp (gap.upper - size) alignment) alignment
          (by omega) (by omega) (by omega)
        rw [if_neg low, moved, Words.add_of_lt 64 _ _ (by omega), if_neg (by omega)]
        exact inr ⟨⟨dvd_sub divides dvd_rfl, by omega, by omega⟩,
          fun addr holds => Nat.le_sub_of_add_le (before addr holds)⟩
    · rw [if_neg beyond]
      exact inr ⟨⟨divides, by omega, not_lt.mp beyond⟩, fun addr ⟨_, _, upper⟩ => by
        change addr ≤ _
        omega⟩

theorem getAddrFromGap_spec (found : getAddrFromGap gap size alignment dir ≠ InvalidAddress) :
    alignment ∣ getAddrFromGap gap size alignment dir ∧
      gap.lower ≤ getAddrFromGap gap size alignment dir ∧
      getAddrFromGap gap size alignment dir + size ≤ gap.upper := by
  rcases getAddrFromGap_cases gap size alignment dir pos bounded alignmentPositive fits with
    none | placed
  · exact absurd none.1 found
  · exact ⟨placed.1.aligned, placed.1.lower, placed.1.upper⟩

end

/-! ### Cutting a block out of a gap -/

/-- The pieces of a gap cover it less the block. -/
structure Cuts (gap : Gap) (addr size : Nat) (pieces : List Gap) : Prop where
  separated : Separated pieces
  inside : ∀ piece ∈ pieces, gap.lower ≤ piece.lower ∧ piece.upper ≤ gap.upper
  covers : ∀ point, Covers pieces point ↔ gap.Contains point ∧ ¬ InBlock addr size point

variable (gap : Gap) (addr size : Nat)

theorem cuts_nil (lower : addr = gap.lower) (upper : addr + size = gap.upper) :
    Cuts gap addr size [] := by
  refine ⟨separated_nil, forall_mem_nil _, fun point => ?_⟩
  simp only [covers_nil, Interval.Contains, InBlock, false_iff]
  omega

section

variable (pos : 0 < size)
include pos

theorem cuts_left (lower : gap.lower < addr) (upper : addr + size = gap.upper) :
    Cuts gap addr size [⟨gap.lower, addr⟩] := by
  refine ⟨(separated_cons _ _).mpr ⟨lower, by simp, separated_nil⟩, ?_, fun point => ?_⟩
  · simp only [mem_singleton, forall_eq]
    omega
  · simp only [covers_cons, covers_nil, Interval.Contains, InBlock, or_false]
    omega

theorem cuts_right (lower : addr = gap.lower) (upper : addr + size < gap.upper) :
    Cuts gap addr size [⟨addr + size, gap.upper⟩] := by
  refine ⟨(separated_cons _ _).mpr ⟨upper, by simp, separated_nil⟩, ?_, fun point => ?_⟩
  · simp only [mem_singleton, forall_eq]
    omega
  · simp only [covers_cons, covers_nil, Interval.Contains, InBlock, or_false]
    omega

theorem cuts_both (lower : gap.lower < addr) (upper : addr + size < gap.upper) :
    Cuts gap addr size [⟨gap.lower, addr⟩, ⟨addr + size, gap.upper⟩] := by
  refine ⟨(separated_cons _ _).mpr ⟨lower, ?_, (separated_cons _ _).mpr
    ⟨upper, by simp, separated_nil⟩⟩, ?_, fun point => ?_⟩
  · simp only [mem_singleton, forall_eq]
    omega
  · simp only [mem_cons, not_mem_nil, or_false, forall_eq_or_imp, forall_eq]
    omega
  · simp only [covers_cons, covers_nil, Interval.Contains, InBlock, or_false]
    omega

theorem cutGap_cuts (bounded : gap.upper < 2 ^ 64) (lower : gap.lower ≤ addr)
    (upper : addr + size ≤ gap.upper) : Cuts gap addr size (cutGap gap addr size) := by
  simp only [cutGap, addAddress, subAddress, Words.add_of_lt 64 addr size (by omega),
    Words.sub_of_le 64 addr gap.lower lower (by omega) (by omega),
    Words.sub_of_le 64 gap.upper (addr + size) upper (by omega) (by omega)]
  split_ifs with exact right left
  · exact cuts_nil gap addr size (by omega) (by omega)
  · exact cuts_left gap addr size pos (by omega) (by omega)
  · exact cuts_right gap addr size pos (by omega) (by omega)
  · exact cuts_both gap addr size pos (by omega) (by omega)

theorem cutFront_cuts (bounded : gap.upper < 2 ^ 64) (upper : gap.lower + size ≤ gap.upper) :
    Cuts gap gap.lower size (cutFront gap size) := by
  simp only [cutFront, size_eq gap (by omega) bounded, addAddress,
    Words.add_of_lt 64 gap.lower size (by omega)]
  split_ifs with exact
  · exact cuts_nil gap gap.lower size rfl (by omega)
  · exact cuts_right gap gap.lower size pos rfl (by omega)

theorem cutInside_cuts (bounded : gap.upper < 2 ^ 64) (lower : gap.lower < addr)
    (upper : addr + size ≤ gap.upper) : Cuts gap addr size (cutInside gap addr size) := by
  simp only [cutInside, addAddress, subAddress, Words.add_of_lt 64 addr size (by omega),
    Words.sub_of_le 64 gap.upper (addr + size) upper (by omega) (by omega)]
  split_ifs with exact
  · exact cuts_left gap addr size pos lower exact.symm
  · rw [Words.add_of_lt 64 _ _ (by omega),
      show addr + size + (gap.upper - (addr + size)) = gap.upper by omega]
    exact cuts_both gap addr size pos lower (by omega)

end

section

variable {totalSize : Nat} {before after : List Gap} {gap : Gap} {addr size : Nat}
  {pieces : List Gap} (wellFormed : GapsWellFormed totalSize (before ++ gap :: after))
  (cuts : Cuts gap addr size pieces) (lower : gap.lower ≤ addr) (upper : addr + size ≤ gap.upper)
include wellFormed cuts lower upper

theorem replaceGap_spec : GapsWellFormed totalSize (before ++ (pieces ++ after)) ∧
      ∀ point, Covers (before ++ (pieces ++ after)) point ↔
        Covers (before ++ gap :: after) point ∧ ¬ InBlock addr size point := by
  obtain ⟨left, right, cross⟩ := (separated_append _ _).mp wellFormed.separated
  obtain ⟨_, ahead, _⟩ := (separated_cons _ _).mp right
  refine ⟨⟨wellFormed.separated.replace cuts.separated cuts.inside, ?_⟩, ?_⟩
  · intro other mem
    rcases mem_append.mp mem with inBefore | inRest
    · exact wellFormed.bounded other (mem_append_left _ inBefore)
    · rcases mem_append.mp inRest with inPieces | inAfter
      · exact le_trans (cuts.inside other inPieces).2
          (wellFormed.bounded gap (mem_append_right _ mem_cons_self))
      · exact wellFormed.bounded other
          (mem_append_right _ (mem_cons_of_mem _ inAfter))
  · intro point
    -- The other gaps are apart from this one, so none of them meets the block.
    have offBefore : Covers before point → ¬ InBlock addr size point := by
      rintro ⟨other, mem, inside⟩ block
      have apart := cross other mem gap mem_cons_self
      simp only [Interval.Contains, InBlock] at inside block
      omega
    have offAfter : Covers after point → ¬ InBlock addr size point := by
      rintro ⟨other, mem, inside⟩ block
      have apart := ahead other mem
      simp only [Interval.Contains, InBlock] at inside block
      omega
    simp only [covers_append, covers_cons, cuts.covers]
    tauto

/-! ### Allocation -/

/-- An operation that takes a free block: the block lies in the memory, all of it was free,
and it is what the free addresses lose. -/
structure Takes (totalSize : Nat) (gaps : List Gap) (addr size : Nat) (gaps' : List Gap) :
    Prop where
  wellFormed : GapsWellFormed totalSize gaps'
  bounded : addr + size ≤ totalSize
  free : ∀ point, InBlock addr size point → Covers gaps point
  covers : ∀ point, Covers gaps' point ↔ Covers gaps point ∧ ¬ InBlock addr size point

theorem takes_replaceGap :
    Takes totalSize (before ++ gap :: after) addr size (before ++ (pieces ++ after)) := by
  obtain ⟨kept, covers⟩ := replaceGap_spec wellFormed cuts lower upper
  have mem : gap ∈ before ++ gap :: after := mem_append_right _ mem_cons_self
  refine ⟨kept, upper.trans (wellFormed.bounded gap mem), fun point block => ?_, covers⟩
  exact ⟨gap, mem, lower.trans block.1, block.2.trans_le upper⟩

end

variable (par : Partitioner) (gaps before after : List Gap)

theorem visitGap_suitable (size alignment : Nat) (dir : Direction) (positions : List Nat)
    (found : MinimalGap)
    (suitable : ∀ position, found.1 = some position → ∃ gap, gaps[position]? = some gap ∧
      getAddrFromGap gap size alignment dir ≠ InvalidAddress) :
    ∀ position, (positions.foldl (visitGap gaps size alignment dir) found).1 = some position →
      ∃ gap, gaps[position]? = some gap ∧
        getAddrFromGap gap size alignment dir ≠ InvalidAddress := by
  induction positions generalizing found with
  | nil => exact suitable
  | cons head rest ih =>
    refine ih _ fun position chosen => ?_
    unfold visitGap at chosen
    split at chosen
    · exact suitable position chosen
    · next gap present =>
      split_ifs at chosen with better
      · rw [Option.some_inj] at chosen
        exact ⟨gap, chosen ▸ present, better.1⟩
      · exact suitable position chosen

theorem minimalGapPosition_suitable (size alignment : Nat) (dir : Direction) (position : Nat)
    (chosen : minimalGapPosition gaps size alignment dir = some position) :
    ∃ gap, gaps[position]? = some gap ∧
      getAddrFromGap gap size alignment dir ≠ InvalidAddress := by
  simp only [minimalGapPosition] at chosen
  split at chosen
  · next found visited =>
    rw [Option.some_inj] at chosen
    refine visitGap_suitable gaps size alignment dir (visitedPositions gaps.length dir)
      (none, 2 ^ 64 - 1) (fun _ impossible => absurd impossible (by simp)) position ?_
    rw [visited, chosen]
  · split at chosen
    · exact absurd chosen (by simp)
    · next gap present =>
      split_ifs at chosen with suitable
      rw [Option.some_inj] at chosen
      exact ⟨gap, chosen ▸ present, suitable⟩

theorem take_cons_drop_of_getElem? {gaps : List Gap} {position : Nat} {gap : Gap}
    (present : gaps[position]? = some gap) :
    gaps.take position ++ gap :: gaps.drop (position + 1) = gaps := by
  obtain ⟨inside, rfl⟩ := List.getElem?_eq_some_iff.mp present
  rw [getElem_cons_drop, take_append_drop]

theorem alloc_spec (wellFormed : GapsWellFormed par.totalSize par.gaps)
    (totalFits : par.totalSize < 2 ^ 64) (size alignment : Nat) (dir : Direction)
    (sizePositive : 0 < size) (alignmentPositive : 0 < alignment)
    (fits : ∀ gap ∈ par.gaps, size ≤ gap.upper - gap.lower →
      GapArithmeticFits gap size alignment dir) :
    par.alloc size alignment dir = (InvalidAddress, par) ∨
      ∃ addr gaps', par.alloc size alignment dir = (addr, { par with gaps := gaps' }) ∧
        addr ≠ InvalidAddress ∧ alignment ∣ addr ∧
        Takes par.totalSize par.gaps addr size gaps' := by
  unfold alloc
  cases chosen : minimalGapPosition par.gaps size alignment dir with
  | none => exact inl rfl
  | some position =>
    obtain ⟨gap, present, suitable⟩ := minimalGapPosition_suitable _ _ _ _ _ chosen
    simp only [present]
    have mem : gap ∈ par.gaps := mem_of_getElem? present
    have bounded : gap.upper < 2 ^ 64 := (wellFormed.bounded gap mem).trans_lt totalFits
    obtain ⟨divides, lower, upper⟩ := getAddrFromGap_spec gap size alignment dir
      (wellFormed.separated.nonempty gap mem) bounded alignmentPositive (fits gap mem)
      suitable
    have decomposed := take_cons_drop_of_getElem? present
    rw [← decomposed] at wellFormed
    have taken := takes_replaceGap wellFormed
      (cutGap_cuts gap _ size sizePositive bounded lower upper) lower upper
    rw [decomposed] at taken
    exact inr ⟨_, _, rfl, suitable, divides, taken⟩

theorem split_at_gap (gap : Gap) (separated : Separated (before ++ gap :: after)) (addr : Nat)
    (lower : gap.lower = addr) :
    (before ++ gap :: after).takeWhile (fun gap => decide (gap.lower < addr)) = before ∧
      (before ++ gap :: after).dropWhile (fun gap => decide (gap.lower < addr)) =
        gap :: after := by
  obtain ⟨left, _, cross⟩ := (separated_append _ _).mp separated
  have below : ∀ other ∈ before, decide (other.lower < addr) = true := by
    intro other mem
    have pos := left.nonempty other mem
    have apart := cross other mem gap mem_cons_self
    exact decide_eq_true (by omega)
  rw [takeWhile_append_of_pos below, dropWhile_append_of_pos below]
  have stop : decide (gap.lower < addr) = false := decide_eq_false (by omega)
  simp [stop]

theorem split_past_gap (gap : Gap) (separated : Separated (before ++ gap :: after)) (addr : Nat)
    (lower : gap.lower < addr) (upper : addr < gap.upper) :
    (before ++ gap :: after).takeWhile (fun gap => decide (gap.lower < addr)) =
        before ++ [gap] ∧
      (before ++ gap :: after).dropWhile (fun gap => decide (gap.lower < addr)) = after := by
  obtain ⟨left, right, cross⟩ := (separated_append _ _).mp separated
  obtain ⟨_, ahead, _⟩ := (separated_cons _ _).mp right
  have below : ∀ other ∈ before ++ [gap], decide (other.lower < addr) = true := by
    intro other mem
    rcases mem_append.mp mem with inBefore | isGap
    · have pos := left.nonempty other inBefore
      have apart := cross other inBefore gap mem_cons_self
      exact decide_eq_true (by omega)
    · rw [mem_singleton.mp isGap]
      exact decide_eq_true lower
  rw [show before ++ gap :: after = (before ++ [gap]) ++ after by simp,
    takeWhile_append_of_pos below, dropWhile_append_of_pos below]
  cases after with
  | nil => simp
  | cons next rest =>
    have beyond := ahead next mem_cons_self
    have stop : decide (next.lower < addr) = false := decide_eq_false (by omega)
    simp [stop]

theorem allocFixed_spec (wellFormed : GapsWellFormed par.totalSize par.gaps)
    (totalFits : par.totalSize < 2 ^ 64) (addr size : Nat) (pos : 0 < size)
    (free : ∀ point, InBlock addr size point → Covers par.gaps point) :
    ∃ gaps', par.allocFixed addr size = some { par with gaps := gaps' } ∧
      Takes par.totalSize par.gaps addr size gaps' := by
  obtain ⟨gap, mem, lower, upper⟩ := wellFormed.separated.exists_interval_of_convex
    (show addr < addr + size by omega) fun point above below => free point ⟨above, below⟩
  have bounded : gap.upper < 2 ^ 64 := (wellFormed.bounded gap mem).trans_lt totalFits
  obtain ⟨before, after, decomposed⟩ := append_of_mem mem
  rw [decomposed] at wellFormed
  rcases lt_or_ge gap.lower addr with inside | front
  · obtain ⟨below, above⟩ :=
      split_past_gap before after gap wellFormed.separated addr inside (by omega)
    refine ⟨before ++ (cutInside gap addr size ++ after), ?_, ?_⟩
    · have apart : ∀ other ∈ after, gap.upper < other.lower :=
        ((separated_cons _ _).mp ((separated_append _ _).mp wellFormed.separated).2.1).2.1
      unfold allocFixed
      rw [decomposed, below, above]
      cases after with
      | nil => simp
      | cons next rest =>
        have beyond := apart next mem_cons_self
        simp only [if_neg (show ¬ next.lower = addr by omega)]
        simp
    · rw [decomposed]
      exact takes_replaceGap wellFormed
        (cutInside_cuts gap addr size pos bounded inside upper) lower upper
  · have starts : gap.lower = addr := le_antisymm lower front
    obtain ⟨below, above⟩ := split_at_gap before after gap wellFormed.separated addr starts
    refine ⟨before ++ (cutFront gap size ++ after), ?_, ?_⟩
    · unfold allocFixed
      rw [decomposed, below, above]
      simp only [if_pos starts]
    · subst starts
      rw [decomposed]
      exact takes_replaceGap wellFormed (cutFront_cuts gap size pos bounded upper) lower
        upper

/-! ### Giving a block back -/

/-- An operation that gives a block back: the block is what the free addresses gain. -/
structure Gives (gaps : List Gap) (addr size : Nat) (gaps' : List Gap) : Prop where
  separated : Separated gaps'
  covers : ∀ point, Covers gaps' point ↔ Covers gaps point ∨ InBlock addr size point

theorem below_or_above (pos : gap.lower < gap.upper) (sizePositive : 0 < size)
    (apart : ∀ point, InBlock addr size point → ¬ gap.Contains point) :
    gap.upper ≤ addr ∨ addr + size ≤ gap.lower := by
  by_contra crossing
  refine apart (max addr gap.lower) ?_ ?_
  · simp only [InBlock]
    omega
  · simp only [Interval.Contains]
    omega

/-- The rest of `free` once the block is known to end above the first gap's lower end. -/
def freeTail (addr size : Nat) (gaps : List Gap) : List Gap :=
  match freeBetween addr size gaps with
  | some gaps' => gaps'
  | none => freeLast addr size gaps

theorem freeTail_cons (gap nextGap : Gap) (rest : List Gap)
    (notBetween : ¬ (gap.upper ≤ addr ∧ addAddress addr size ≤ nextGap.lower)) :
    freeTail addr size (gap :: nextGap :: rest) =
      gap :: freeTail addr size (nextGap :: rest) := by
  simp only [freeTail, freeBetween, if_neg notBetween]
  cases freeBetween addr size (nextGap :: rest) with
  | none => rfl
  | some gaps' => rfl

theorem freeTail_between (gap nextGap : Gap) (rest : List Gap)
    (separated : Separated (gap :: nextGap :: rest)) (sizePositive : 0 < size)
    (fits : addr + size < 2 ^ 64) (nextFits : nextGap.upper < 2 ^ 64) (above : gap.upper ≤ addr)
    (below : addr + size ≤ nextGap.lower) :
    Gives (gap :: nextGap :: rest) addr size (freeTail addr size (gap :: nextGap :: rest)) ∧
      ∀ other ∈ freeTail addr size (gap :: nextGap :: rest), gap.lower ≤ other.lower := by
  obtain ⟨pos, aheadAll, restSeparated⟩ := (separated_cons _ _).mp separated
  obtain ⟨nextPositive, ahead, tailSeparated⟩ := (separated_cons _ _).mp restSeparated
  have nextSize := size_eq nextGap nextPositive nextFits
  have aheadGap : ∀ other ∈ rest, gap.upper < other.lower := (forall_mem_cons.mp aheadAll).2
  have low : ∀ other ∈ rest, gap.lower ≤ other.lower :=
    fun other mem => (lt_trans pos (aheadGap other mem)).le
  have between : gap.upper < nextGap.lower := aheadAll nextGap mem_cons_self
  have finEq : Words.add 64 addr size = addr + size := Words.add_of_lt 64 _ _ fits
  simp only [freeTail, freeBetween, addAddress, finEq, if_pos (And.intro above below)]
  split_ifs with touchesGap touchesNext touchesNext
  · -- The block fills the space between the two gaps.
    have sum : Words.add 64 size (Gap.size nextGap) = size + (nextGap.upper - nextGap.lower) := by
      rw [nextSize]
      exact Words.add_of_lt 64 _ _ (by omega)
    have upper : append gap (Words.add 64 size (Gap.size nextGap)) =
        ⟨gap.lower, nextGap.upper⟩ := by
      simp only [append, sum, addAddress, Words.add_of_lt 64 gap.upper
        (size + (nextGap.upper - nextGap.lower)) (by omega), Interval.mk.injEq, true_and]
      omega
    simp only [upper]
    refine ⟨⟨(separated_cons _ _).mpr ⟨by simp only; omega, ahead, tailSeparated⟩,
      fun point => ?_⟩, ?_⟩
    · simp only [covers_cons, Interval.Contains, InBlock]
      have := lt_or_ge point gap.upper
      grind
    · simpa using low
  · have upper : append gap size = ⟨gap.lower, addr + size⟩ := by
      simp only [append, addAddress, Words.add_of_lt 64 gap.upper size (by omega),
        Interval.mk.injEq, true_and]
      omega
    simp only [upper]
    refine ⟨⟨(separated_cons _ _).mpr ⟨by simp only; omega, ?_, restSeparated⟩,
      fun point => ?_⟩, ?_⟩
    · intro other mem
      rcases mem_cons.mp mem with rfl | tail
      · simp only
        omega
      · have := ahead other tail
        simp only
        omega
    · simp only [covers_cons, Interval.Contains, InBlock]
      grind
    · intro other mem
      simp only [mem_cons] at mem
      rcases mem with rfl | rfl | tail
      · exact le_rfl
      · omega
      · exact low other tail
  · have lower : prepend nextGap size = ⟨addr, nextGap.upper⟩ := by
      simp only [prepend, subAddress, Words.sub_of_le 64 nextGap.lower size (by omega) (by omega)
        (by omega), Interval.mk.injEq, and_true]
      omega
    simp only [lower]
    refine ⟨⟨(separated_cons _ _).mpr ⟨pos, ?_, (separated_cons _ _).mpr
      ⟨by simp only; omega, ahead, tailSeparated⟩⟩, fun point => ?_⟩, ?_⟩
    · intro other mem
      rcases mem_cons.mp mem with rfl | tail
      · simp only
        omega
      · exact aheadGap other tail
    · simp only [covers_cons, Interval.Contains, InBlock]
      grind
    · intro other mem
      simp only [mem_cons] at mem
      rcases mem with rfl | rfl | tail
      · exact le_rfl
      · simp only
        omega
      · exact low other tail
  · refine ⟨⟨(separated_cons _ _).mpr ⟨pos, ?_, (separated_cons _ _).mpr
      ⟨by simp only; omega, ?_, restSeparated⟩⟩, fun point => ?_⟩, ?_⟩
    · intro other mem
      simp only [mem_cons] at mem
      rcases mem with rfl | rfl | tail
      · simp only
        omega
      · exact between
      · exact aheadGap other tail
    · intro other mem
      rcases mem_cons.mp mem with rfl | tail
      · simp only
        omega
      · have := ahead other tail
        simp only
        omega
    · simp only [covers_cons, Interval.Contains, InBlock]
      grind
    · intro other mem
      simp only [mem_cons] at mem
      rcases mem with rfl | rfl | rfl | tail
      · exact le_rfl
      · simp only
        omega
      · omega
      · exact low other tail

theorem freeTail_last (gap : Gap) (pos : gap.lower < gap.upper) (sizePositive : 0 < size)
    (fits : addr + size < 2 ^ 64) (above : gap.upper ≤ addr) :
    Gives [gap] addr size (freeTail addr size [gap]) ∧
      ∀ other ∈ freeTail addr size [gap], gap.lower ≤ other.lower := by
  have finEq : Words.add 64 addr size = addr + size := Words.add_of_lt 64 _ _ fits
  simp only [freeTail, freeBetween, freeLast, addAddress, finEq,
    if_neg (show ¬ addr + size < gap.lower by omega),
    if_neg (show ¬ addr + size = gap.lower by omega)]
  split_ifs with touches
  · have upper : append gap size = ⟨gap.lower, addr + size⟩ := by
      simp only [append, addAddress, Words.add_of_lt 64 gap.upper size (by omega),
        Interval.mk.injEq, true_and]
      omega
    simp only [upper]
    refine ⟨⟨(separated_cons _ _).mpr ⟨by simp only; omega, by simp, separated_nil⟩,
      fun point => ?_⟩, by simp⟩
    simp only [covers_cons, covers_nil, Interval.Contains, InBlock, or_false]
    omega
  · refine ⟨⟨(separated_cons _ _).mpr ⟨pos, ?_, (separated_cons _ _).mpr
      ⟨by simp only; omega, by simp, separated_nil⟩⟩, fun point => ?_⟩, ?_⟩
    · simp only [mem_singleton, forall_eq]
      omega
    · simp only [covers_cons, covers_nil, Interval.Contains, InBlock, or_false]
    · simp only [mem_cons, not_mem_nil, or_false, forall_eq_or_imp, forall_eq]
      omega

theorem upper_le_of_taken {addr size : Nat} (sizePositive : 0 < size) {gap : Gap} {rest : List Gap}
    (separated : Separated (gap :: rest))
    (taken : ∀ point, InBlock addr size point → ¬ Covers (gap :: rest) point)
    (above : gap.lower < addr + size) : gap.upper ≤ addr := by
  rcases below_or_above gap addr size (separated.nonempty gap mem_cons_self) sizePositive
    fun point block inside => taken point block ⟨gap, mem_cons_self, inside⟩ with below | beyond
  · exact below
  · omega

/-- The induction behind `free`, over the gaps below the block. Every gap passed over ends
below the block, so the block is inserted at the first place where it fits. -/
theorem freeTail_spec (sizePositive : 0 < size) (fits : addr + size < 2 ^ 64) (gap : Gap)
    (rest : List Gap) (separated : Separated (gap :: rest))
    (bounded : ∀ other ∈ gap :: rest, other.upper < 2 ^ 64)
    (taken : ∀ point, InBlock addr size point → ¬ Covers (gap :: rest) point)
    (above : gap.lower < addr + size) :
    Gives (gap :: rest) addr size (freeTail addr size (gap :: rest)) ∧
      ∀ other ∈ freeTail addr size (gap :: rest), gap.lower ≤ other.lower := by
  induction rest generalizing gap with
  | nil =>
    exact freeTail_last addr size gap (separated.nonempty gap mem_cons_self) sizePositive fits
      (upper_le_of_taken sizePositive separated taken above)
  | cons nextGap rest ih =>
    have pos := separated.nonempty gap mem_cons_self
    have pastGap := upper_le_of_taken sizePositive separated taken above
    by_cases between : addr + size ≤ nextGap.lower
    · exact freeTail_between addr size gap nextGap rest separated sizePositive fits
        (bounded nextGap (mem_cons_of_mem _ mem_cons_self)) pastGap between
    · obtain ⟨_, ahead, restSeparated⟩ := (separated_cons _ _).mp separated
      obtain ⟨gives, low⟩ := ih nextGap restSeparated
        (forall_mem_cons.mp bounded).2
        (fun point block covered => taken point block ((covers_cons _ _ _).mpr (inr covered)))
        (not_le.mp between)
      have beyond : gap.upper < nextGap.lower := ahead nextGap mem_cons_self
      have skips : ¬ (gap.upper ≤ addr ∧ addAddress addr size ≤ nextGap.lower) := by
        rw [addAddress, Words.add_of_lt 64 _ _ fits]
        omega
      rw [freeTail_cons addr size gap nextGap rest skips]
      refine ⟨⟨(separated_cons _ _).mpr ⟨pos, fun other mem => ?_, gives.separated⟩,
        fun point => ?_⟩, fun other mem => ?_⟩
      · exact beyond.trans_le (low other mem)
      · rw [covers_cons, gives.covers, covers_cons gap, or_assoc]
      · rcases mem_cons.mp mem with rfl | tail
        · exact le_rfl
        · exact (le_of_lt (lt_trans pos beyond)).trans (low other tail)

theorem freeGaps_spec (separated : Separated gaps) (bounded : ∀ gap ∈ gaps, gap.upper < 2 ^ 64)
    (sizePositive : 0 < size) (fits : addr + size < 2 ^ 64)
    (taken : ∀ point, InBlock addr size point → ¬ Covers gaps point) :
    Gives gaps addr size (freeGaps addr size gaps) := by
  have finEq : Words.add 64 addr size = addr + size := Words.add_of_lt 64 _ _ fits
  cases gaps with
  | nil =>
    simp only [freeGaps, addAddress, finEq]
    refine ⟨(separated_cons _ _).mpr ⟨by simp only; omega, by simp, separated_nil⟩,
      fun point => ?_⟩
    simp only [covers_cons, covers_nil, Interval.Contains, InBlock, or_false, false_or]
  | cons firstGap rest =>
    obtain ⟨pos, ahead, restSeparated⟩ := (separated_cons _ _).mp separated
    simp only [freeGaps, addAddress, finEq]
    split_ifs with touches before
    · have lower : prepend firstGap size = ⟨addr, firstGap.upper⟩ := by
        simp only [prepend, subAddress, Words.sub_of_le 64 firstGap.lower size (by omega)
          (by omega) (by omega), Interval.mk.injEq, and_true]
        omega
      simp only [lower]
      refine ⟨(separated_cons _ _).mpr ⟨by simp only; omega, ahead, restSeparated⟩,
        fun point => ?_⟩
      simp only [covers_cons, Interval.Contains, InBlock]
      grind
    · refine ⟨(separated_cons _ _).mpr ⟨by simp only; omega, ?_, separated⟩, fun point => ?_⟩
      · intro other mem
        rcases mem_cons.mp mem with rfl | tail
        · exact before
        · exact (lt_trans before pos).trans (ahead other tail)
      · rw [covers_cons, or_comm]
        rfl
    · exact (freeTail_spec addr size sizePositive fits firstGap rest separated bounded taken
        (by omega)).1

/-- Freeing a block just taken restores the gap list. -/
theorem freeGaps_of_takes {totalSize : Nat} {gaps gaps' : List Gap} {addr size : Nat}
    (totalFits : totalSize < 2 ^ 64) (wellFormed : GapsWellFormed totalSize gaps)
    (sizePositive : 0 < size) (taken : Takes totalSize gaps addr size gaps') :
    freeGaps addr size gaps' = gaps := by
  have gives := freeGaps_spec addr size gaps' taken.wellFormed.separated
    (fun gap mem => (taken.wellFormed.bounded gap mem).trans_lt totalFits)
    sizePositive (taken.bounded.trans_lt totalFits)
    fun point block covered => ((taken.covers point).mp covered).2 block
  refine gives.separated.eq_of_covers_iff wellFormed.separated fun point => ?_
  rw [gives.covers, taken.covers]
  constructor
  · rintro (⟨covered, _⟩ | block)
    · exact covered
    · exact taken.free point block
  · intro covered
    by_cases block : InBlock addr size point
    · exact inr block
    · exact inl ⟨covered, block⟩

end Partitioner

end NpuPlugin
