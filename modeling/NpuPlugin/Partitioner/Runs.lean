/-
This file follows a partitioner through any sequence of allocations and releases: the gaps and the
held blocks partition the memory in every state a client reaches, and an allocation takes the best
gap.
-/

import Mathlib.Data.List.Induction
import NpuPlugin.Partitioner.Model

namespace NpuPlugin.Partitioner

open Intervals List Or

/-- A partitioner and the blocks, as address and size, its client holds. -/
structure Client where
  par : Partitioner
  live : List (Nat × Nat)
deriving DecidableEq, Repr

inductive Operation
  | alloc (size alignment : Nat) (dir : Direction)
  | allocFixed (addr size : Nat)
  | free (addr size : Nat)
deriving DecidableEq, Repr

/-- A block shares no address with the held blocks. -/
def ApartFromLive (live : List (Nat × Nat)) (addr size : Nat) : Prop :=
  ∀ block ∈ live, ∀ point, InBlock addr size point → ¬ InBlock block.1 block.2 point

/-- What a client may ask for: positive sizes, fixed blocks on free memory, and the release
of exactly a block it holds. The sums of an aligned allocation stay below `2 ^ 64`. -/
def Admissible (client : Client) : Operation → Prop
  | .alloc size alignment dir => 0 < size ∧ 0 < alignment ∧
      ∀ gap ∈ client.par.gaps, size ≤ gap.upper - gap.lower →
        GapArithmeticFits gap size alignment dir
  | .allocFixed addr size => 0 < size ∧ addr + size ≤ client.par.totalSize ∧
      ApartFromLive client.live addr size
  | .free addr size => (addr, size) ∈ client.live

def perform (client : Client) : Operation → Option Client
  | .alloc size alignment dir =>
    let result := client.par.alloc size alignment dir
    if result.1 = InvalidAddress then some ⟨result.2, client.live⟩
    else some ⟨result.2, (result.1, size) :: client.live⟩
  | .allocFixed addr size =>
    (client.par.allocFixed addr size).map fun par => ⟨par, (addr, size) :: client.live⟩
  | .free addr size => some ⟨client.par.free addr size, client.live.erase (addr, size)⟩

/-- The states a client reaches from a fresh partitioner. -/
inductive Reachable (totalSize : Nat) : Client → Prop
  | init : Reachable totalSize ⟨init totalSize, []⟩
  | step {client next : Client} (operation : Operation) (reached : Reachable totalSize client)
      (admissible : Admissible client operation)
      (performed : perform client operation = some next) : Reachable totalSize next

/-- The gaps are well formed, and with the held blocks they partition the memory. -/
structure Partitions (totalSize : Nat) (client : Client) : Prop where
  totalSize_eq : client.par.totalSize = totalSize
  wellFormed : GapsWellFormed totalSize client.par.gaps
  positive : ∀ block ∈ client.live, 0 < block.2
  bounded : ∀ block ∈ client.live, block.1 + block.2 ≤ totalSize
  apart : client.live.Pairwise fun first second =>
    ∀ point, InBlock first.1 first.2 point → ¬ InBlock second.1 second.2 point
  notFree : ∀ block ∈ client.live, ∀ point, InBlock block.1 block.2 point →
    ¬ Covers client.par.gaps point
  cover : ∀ point, point < totalSize →
    Covers client.par.gaps point ∨ ∃ block ∈ client.live, InBlock block.1 block.2 point

theorem partitions_init (totalSize : Nat) (positive : 0 < totalSize) :
    Partitions totalSize ⟨init totalSize, []⟩ := by
  refine ⟨rfl, ⟨?_, ?_⟩, by simp, by simp, List.Pairwise.nil, by simp, fun point below => ?_⟩
  · exact (separated_cons _ _).mpr ⟨positive, by simp, separated_nil⟩
  · simp [init]
  · exact inl ⟨⟨0, totalSize⟩, by simp [init], Nat.zero_le _, below⟩

theorem Partitions.take {totalSize : Nat} {client : Client}
    (partitions : Partitions totalSize client) {addr size : Nat} (positive : 0 < size)
    {gaps : List Gap} (taken : Takes totalSize client.par.gaps addr size gaps) :
    Partitions totalSize ⟨{ client.par with gaps := gaps }, (addr, size) :: client.live⟩ := by
  refine ⟨partitions.totalSize_eq, taken.wellFormed, ?_, ?_, ?_, ?_, ?_⟩
  · exact forall_mem_cons.mpr ⟨positive, partitions.positive⟩
  · exact forall_mem_cons.mpr ⟨taken.bounded, partitions.bounded⟩
  · refine pairwise_cons.mpr ⟨fun block mem point inside held => ?_, partitions.apart⟩
    exact partitions.notFree block mem point held (taken.free point inside)
  · refine forall_mem_cons.mpr ⟨fun point inside covered => ?_, ?_⟩
    · exact ((taken.covers point).mp covered).2 inside
    · intro block mem point held covered
      exact partitions.notFree block mem point held ((taken.covers point).mp covered).1
  · intro point below
    by_cases inside : InBlock addr size point
    · exact inr ⟨(addr, size), mem_cons_self, inside⟩
    · rcases partitions.cover point below with covered | ⟨block, mem, held⟩
      · exact inl ((taken.covers point).mpr ⟨covered, inside⟩)
      · exact inr ⟨block, mem_cons_of_mem _ mem, held⟩

variable {client : Client} {totalSize addr size : Nat}

section

variable (partitions : Partitions totalSize client)
include partitions

theorem Partitions.free_of_apart (bounded : addr + size ≤ totalSize)
    (apart : ApartFromLive client.live addr size) :
    ∀ point, InBlock addr size point → Covers client.par.gaps point := by
  intro point inside
  rcases partitions.cover point (inside.2.trans_le bounded) with
    covered | ⟨block, mem, held⟩
  · exact covered
  · exact absurd held (apart block mem point inside)

section

variable (totalFits : totalSize < 2 ^ 64)
include totalFits

theorem Partitions.release (held : (addr, size) ∈ client.live) :
    Partitions totalSize ⟨client.par.free addr size, client.live.erase (addr, size)⟩ := by
  have sizePositive : 0 < size := partitions.positive _ held
  have bounded : addr + size ≤ totalSize := partitions.bounded _ held
  have gives := freeGaps_spec addr size client.par.gaps partitions.wellFormed.separated
    (fun gap mem => (partitions.wellFormed.bounded gap mem).trans_lt totalFits)
    sizePositive (bounded.trans_lt totalFits) (partitions.notFree _ held)
  have reordered : client.live.Perm ((addr, size) :: client.live.erase (addr, size)) :=
    perm_cons_erase held
  have pairwise := reordered.pairwise partitions.apart
    fun {first second} apart point inside held => apart point held inside
  obtain ⟨apart, restApart⟩ := pairwise_cons.mp pairwise
  have kept : ∀ block ∈ client.live.erase (addr, size), block ∈ client.live :=
    fun block mem => mem_of_mem_erase mem
  refine ⟨partitions.totalSize_eq, ⟨gives.separated, fun gap mem => ?_⟩,
    fun block mem => partitions.positive block (kept block mem),
    fun block mem => partitions.bounded block (kept block mem), restApart, ?_, ?_⟩
  · have positive := gives.separated.nonempty gap mem
    have last : Covers (freeGaps addr size client.par.gaps) (gap.upper - 1) :=
      ⟨gap, mem, Nat.le_sub_one_of_lt positive, by omega⟩
    rcases (gives.covers _).mp last with ⟨other, otherMember, inside⟩ | inside
    · have := partitions.wellFormed.bounded other otherMember
      have := inside.2
      omega
    · have := inside.2
      omega
  · intro block mem point inside covered
    rcases (gives.covers point).mp covered with wasFree | released
    · exact partitions.notFree block (kept block mem) point inside wasFree
    · exact apart block mem point released inside
  · intro point below
    rcases partitions.cover point below with covered | ⟨block, mem, inside⟩
    · exact inl ((gives.covers point).mpr (inl covered))
    · rcases mem_cons.mp (reordered.mem_iff.mp mem) with rfl | rest
      · exact inl ((gives.covers point).mpr (inr inside))
      · exact inr ⟨block, rest, inside⟩

theorem Partitions.alloc_spec {alignment : Nat} {dir : Direction}
    (admissible : Admissible client (.alloc size alignment dir)) :
    client.par.alloc size alignment dir = (InvalidAddress, client.par) ∨
      ∃ addr gaps, client.par.alloc size alignment dir =
          (addr, { client.par with gaps := gaps }) ∧ addr ≠ InvalidAddress ∧ alignment ∣ addr ∧
        Takes totalSize client.par.gaps addr size gaps := by
  obtain ⟨sizePositive, alignmentPositive, fits⟩ := admissible
  have wellFormed := partitions.wellFormed
  rw [← partitions.totalSize_eq] at wellFormed totalFits ⊢
  exact Partitioner.alloc_spec client.par wellFormed totalFits size alignment dir sizePositive
    alignmentPositive fits

theorem Partitions.allocFixed_spec (admissible : Admissible client (.allocFixed addr size)) :
    ∃ gaps, client.par.allocFixed addr size = some { client.par with gaps := gaps } ∧
      Takes totalSize client.par.gaps addr size gaps := by
  obtain ⟨sizePositive, bounded, apart⟩ := admissible
  have wellFormed := partitions.wellFormed
  have free := partitions.free_of_apart (partitions.totalSize_eq ▸ bounded) apart
  rw [← partitions.totalSize_eq] at wellFormed totalFits ⊢
  exact Partitioner.allocFixed_spec client.par wellFormed totalFits addr size sizePositive free

theorem Partitions.step (operation : Operation) (admissible : Admissible client operation) :
    ∃ next, perform client operation = some next ∧ Partitions totalSize next := by
  cases operation with
  | alloc size alignment dir =>
    simp only [perform]
    rcases partitions.alloc_spec totalFits admissible with
      failed | ⟨addr, gaps, result, valid, _, taken⟩
    · rw [failed]
      exact ⟨client, if_pos rfl, partitions⟩
    · rw [result]
      exact ⟨_, if_neg valid, partitions.take admissible.1 taken⟩
  | allocFixed addr size =>
    obtain ⟨gaps, result, taken⟩ := partitions.allocFixed_spec totalFits admissible
    exact ⟨_, by rw [perform, result]; rfl, partitions.take admissible.1 taken⟩
  | free addr size => exact ⟨_, rfl, partitions.release totalFits admissible⟩

end

end

/-- The gaps and the held blocks partition the memory in every state a client reaches. -/
theorem Reachable.partitions (positive : 0 < totalSize) (totalFits : totalSize < 2 ^ 64)
    (reached : Reachable totalSize client) : Partitions totalSize client := by
  induction reached with
  | init => exact partitions_init totalSize positive
  | step operation _ admissible performed ih =>
    obtain ⟨next, result, kept⟩ := ih.step totalFits operation admissible
    rw [performed] at result
    exact Option.some_inj.mp result ▸ kept

/-- In every state a client reaches, the gaps are sorted, nonempty and apart from each other,
and with the held blocks they partition the memory. Every admissible operation succeeds. An
address `alloc` returns is aligned, in the memory and apart from every held block, and freeing
a block just allocated restores the gap list. -/
theorem reachable_partition (totalSize : Nat) (positive : 0 < totalSize)
    (totalFits : totalSize < 2 ^ 64) (client : Client) (reached : Reachable totalSize client) :
    Partitions totalSize client ∧
      (∀ operation, Admissible client operation → ∃ next, perform client operation = some next) ∧
      (∀ size alignment dir addr par, Admissible client (.alloc size alignment dir) →
        client.par.alloc size alignment dir = (addr, par) → addr ≠ InvalidAddress →
          alignment ∣ addr ∧ addr + size ≤ totalSize ∧ ApartFromLive client.live addr size ∧
            (par.free addr size).gaps = client.par.gaps) ∧
      (∀ addr size par, Admissible client (.allocFixed addr size) →
        client.par.allocFixed addr size = some par →
          (par.free addr size).gaps = client.par.gaps) := by
  have partitions := reached.partitions positive totalFits
  refine ⟨partitions, fun operation admissible => ?_, ?_, ?_⟩
  · obtain ⟨next, performed, _⟩ := partitions.step totalFits operation admissible
    exact ⟨next, performed⟩
  · intro size alignment dir addr par admissible result valid
    rcases partitions.alloc_spec totalFits admissible with
      failed | ⟨addr', gaps, result', _, divides, taken⟩
    · rw [failed] at result
      exact absurd (congrArg Prod.fst result).symm valid
    · rw [result', Prod.mk.injEq] at result
      obtain ⟨rfl, rfl⟩ := result
      refine ⟨divides, taken.bounded, fun block mem point inside held => ?_, ?_⟩
      · exact partitions.notFree block mem point held (taken.free point inside)
      · exact freeGaps_of_takes totalFits partitions.wellFormed admissible.1 taken
  · intro addr size par admissible result
    obtain ⟨gaps, result', taken⟩ := partitions.allocFixed_spec totalFits admissible
    rw [result, Option.some_inj] at result'
    subst result'
    exact freeGaps_of_takes totalFits partitions.wellFormed admissible.1 taken

theorem reachable_partition_example :
    Partitions 33 ⟨⟨[⟨0, 16⟩, ⟨18, 33⟩], 33⟩, [(16, 2)]⟩ ∧
      ((⟨[⟨0, 16⟩, ⟨18, 33⟩], 33⟩ : Partitioner).free 16 2).gaps = [⟨0, 33⟩] := by
  have fits : Admissible ⟨Partitioner.init 33, []⟩ (.alloc 2 16 .down) := by
    refine ⟨by decide, by decide, fun gap mem _ => ?_⟩
    rw [mem_singleton.mp mem]
    exact ⟨by decide, by decide, by decide⟩
  have start := reachable_partition 33 (by decide) (by decide) ⟨Partitioner.init 33, []⟩ .init
  have next := reachable_partition 33 (by decide) (by decide)
    ⟨⟨[⟨0, 16⟩, ⟨18, 33⟩], 33⟩, [(16, 2)]⟩
    (.step (.alloc 2 16 .down) .init fits (by decide))
  exact ⟨next.1, (start.2.2.1 2 16 .down 16 ⟨[⟨0, 16⟩, ⟨18, 33⟩], 33⟩ fits (by decide)
    (by decide)).2.2.2⟩

def intersects (addr1 size1 addr2 size2 : Nat) : Bool :=
  let end1 := addAddress addr1 size1
  let end2 := addAddress addr2 size2
  let inRange := fun first last val : Nat => decide (first ≤ val ∧ val < last)
  inRange addr1 end1 addr2 || inRange addr1 end1 (subAddress end2 1) ||
    inRange addr2 end2 addr1 || inRange addr2 end2 (subAddress end1 1)

/-! ### Blocks that share no address -/

/-- Positive blocks inside the memory of which no two share an address. -/
structure BlocksApart (totalSize : Nat) (blocks : List (Nat × Nat)) : Prop where
  positive : ∀ block ∈ blocks, 0 < block.2
  bounded : ∀ block ∈ blocks, block.1 + block.2 ≤ totalSize
  apart : blocks.Pairwise fun first second =>
    ∀ point, InBlock first.1 first.2 point → ¬ InBlock second.1 second.2 point

variable {totalSize : Nat} {blocks blocks' : List (Nat × Nat)}

theorem BlocksApart.perm (apart : BlocksApart totalSize blocks) (reordered : blocks.Perm blocks') :
    BlocksApart totalSize blocks' := by
  refine ⟨fun block mem => apart.positive block (reordered.mem_iff.mpr mem),
    fun block mem => apart.bounded block (reordered.mem_iff.mpr mem), ?_⟩
  exact reordered.pairwise apart.apart
    fun {first second} separate point inside held => separate point held inside

theorem BlocksApart.sublist (apart : BlocksApart totalSize blocks)
    (fewer : blocks'.Sublist blocks) : BlocksApart totalSize blocks' :=
  ⟨fun block mem => apart.positive block (fewer.subset mem),
    fun block mem => apart.bounded block (fewer.subset mem), apart.apart.sublist fewer⟩

theorem blocksApart_cons {addr size : Nat} :
    BlocksApart totalSize ((addr, size) :: blocks) ↔
      0 < size ∧ addr + size ≤ totalSize ∧ ApartFromLive blocks addr size ∧
        BlocksApart totalSize blocks := by
  constructor
  · rintro ⟨positive, bounded, apart⟩
    obtain ⟨headPositive, positive⟩ := forall_mem_cons.mp positive
    obtain ⟨headBounded, bounded⟩ := forall_mem_cons.mp bounded
    obtain ⟨headApart, apart⟩ := pairwise_cons.mp apart
    exact ⟨headPositive, headBounded, headApart, positive, bounded, apart⟩
  · rintro ⟨headPositive, headBounded, headApart, positive, bounded, apart⟩
    exact ⟨forall_mem_cons.mpr ⟨headPositive, positive⟩, forall_mem_cons.mpr ⟨headBounded, bounded⟩,
      pairwise_cons.mpr ⟨headApart, apart⟩⟩

theorem intersects_eq_false_iff (totalFits : totalSize < 2 ^ 64) {addr1 size1 addr2 size2 : Nat}
    (positive1 : 0 < size1) (positive2 : 0 < size2) (bounded1 : addr1 + size1 ≤ totalSize)
    (bounded2 : addr2 + size2 ≤ totalSize) :
    intersects addr1 size1 addr2 size2 = false ↔
      ∀ point, InBlock addr1 size1 point → ¬ InBlock addr2 size2 point := by
  have end1 : addAddress addr1 size1 = addr1 + size1 := Words.add_of_lt 64 _ _ (by omega)
  have end2 : addAddress addr2 size2 = addr2 + size2 := Words.add_of_lt 64 _ _ (by omega)
  have last1 : subAddress (addr1 + size1) 1 = addr1 + size1 - 1 :=
    Words.sub_of_le 64 _ _ (by omega) (by decide) (by omega)
  have last2 : subAddress (addr2 + size2) 1 = addr2 + size2 - 1 :=
    Words.sub_of_le 64 _ _ (by omega) (by decide) (by omega)
  unfold intersects
  rw [end1, end2]
  dsimp only
  rw [last1, last2]
  simp only [Bool.or_eq_false_iff, decide_eq_false_iff_not, InBlock]
  constructor
  · rintro ⟨⟨⟨first, _⟩, third⟩, _⟩ point inside held
    omega
  · intro apart
    have atFirst := apart addr1
    have atSecond := apart addr2
    omega

/-! ### A client's blocks -/

variable {client : Client} {par : Partitioner} {addr size alignment : Nat} {rest : List (Nat × Nat)}

theorem Partitions.blocksApart (partitions : Partitions totalSize client) :
    BlocksApart totalSize client.live :=
  ⟨partitions.positive, partitions.bounded, partitions.apart⟩

theorem Partitions.perm {live live' : List (Nat × Nat)}
    (partitions : Partitions totalSize ⟨par, live⟩) (reordered : live.Perm live') :
    Partitions totalSize ⟨par, live'⟩ := by
  have apart := partitions.blocksApart.perm reordered
  refine ⟨partitions.totalSize_eq, partitions.wellFormed, apart.positive, apart.bounded,
    apart.apart, fun block mem => partitions.notFree block (reordered.mem_iff.mpr mem),
    fun point below => ?_⟩
  rcases partitions.cover point below with covered | ⟨block, mem, inside⟩
  · exact inl covered
  · exact inr ⟨block, reordered.mem_iff.mp mem, inside⟩

theorem Partitions.covers_iff (partitions : Partitions totalSize client) (point : Nat) :
    Covers client.par.gaps point ↔
      point < totalSize ∧ ∀ block ∈ client.live, ¬ InBlock block.1 block.2 point := by
  constructor
  · rintro covered
    have ⟨gap, mem, inside⟩ := covered
    refine ⟨inside.2.trans_le (partitions.wellFormed.bounded gap mem), ?_⟩
    exact fun block held inBlock => partitions.notFree block held point inBlock covered
  · rintro ⟨below, free⟩
    rcases partitions.cover point below with covered | ⟨block, mem, inside⟩
    · exact covered
    · exact absurd inside (free block mem)

/-- The held blocks determine the partitioner. -/
theorem Partitions.par_eq {first second : Client} (left : Partitions totalSize first)
    (right : Partitions totalSize second) (same : first.live.Perm second.live) :
    first.par = second.par := by
  have gaps : first.par.gaps = second.par.gaps := by
    refine left.wellFormed.separated.eq_of_covers_iff right.wellFormed.separated fun point => ?_
    rw [left.covers_iff, right.covers_iff]
    refine and_congr_right fun _ => ?_
    constructor
    · exact fun free block mem => free block (same.mem_iff.mpr mem)
    · exact fun free block mem => free block (same.mem_iff.mp mem)
  have sizes := left.totalSize_eq.trans right.totalSize_eq.symm
  cases left : first.par
  cases right : second.par
  rw [left, right] at gaps sizes
  exact congrArg₂ Partitioner.mk gaps sizes

theorem Partitions.release_head (totalFits : totalSize < 2 ^ 64)
    (partitions : Partitions totalSize ⟨par, (addr, size) :: rest⟩) :
    Partitions totalSize ⟨par.free addr size, rest⟩ := by
  have released := partitions.release totalFits mem_cons_self
  rwa [erase_cons_head] at released

theorem Partitions.release_all (totalFits : totalSize < 2 ^ 64)
    (partitions : Partitions totalSize ⟨par, blocks ++ rest⟩) :
    Partitions totalSize
      ⟨blocks.foldl (fun par block => par.free block.1 block.2) par, rest⟩ := by
  induction blocks generalizing par with
  | nil => exact partitions
  | cons block blocks ih => exact ih (partitions.release_head totalFits)

/-- The sums of an aligned allocation stay below `2 ^ 64` when the memory and the alignment
leave room for them. -/
theorem gapArithmeticFits_of_le {gap : Gap} (bounded : gap.upper ≤ totalSize)
    (alignmentPositive : 0 < alignment) (sizePositive : 0 < size)
    (roomy : totalSize + alignment ≤ 2 ^ 64) (fits : size ≤ gap.upper - gap.lower)
    (dir : Direction) : GapArithmeticFits gap size alignment dir := by
  cases dir with
  | up =>
    have small : gap.lower + (alignment - 1) < 2 ^ 64 := by omega
    have aligned := (alignValUp_spec gap.lower alignment alignmentPositive small).2.2
    exact ⟨small, by omega⟩
  | down =>
    have small : gap.upper - size + (alignment - 1) < 2 ^ 64 := by omega
    have aligned := (alignValUp_spec (gap.upper - size) alignment alignmentPositive small).2.2
    exact ⟨small, by omega, fun _ => by omega⟩

theorem Partitions.alloc_head (partitions : Partitions totalSize ⟨par, blocks⟩)
    (sizePositive : 0 < size) (alignmentPositive : 0 < alignment)
    (roomy : totalSize + alignment ≤ 2 ^ 64) (dir : Direction) :
    par.alloc size alignment dir = (InvalidAddress, par) ∨
      ∃ addr par', par.alloc size alignment dir = (addr, par') ∧ addr ≠ InvalidAddress ∧
        alignment ∣ addr ∧ Partitions totalSize ⟨par', (addr, size) :: blocks⟩ := by
  have admissible : Admissible ⟨par, blocks⟩ (.alloc size alignment dir) := by
    refine ⟨sizePositive, alignmentPositive, fun gap mem fits => ?_⟩
    exact gapArithmeticFits_of_le (partitions.wellFormed.bounded gap mem) alignmentPositive
      sizePositive roomy fits dir
  rcases partitions.alloc_spec (by omega) admissible with
    failed | ⟨addr, gaps, res, valid, divides, taken⟩
  · exact inl failed
  · exact inr ⟨addr, _, res, valid, divides, partitions.take sizePositive taken⟩

theorem Partitions.allocFixed_head (totalFits : totalSize < 2 ^ 64)
    (partitions : Partitions totalSize ⟨par, blocks⟩)
    (apart : BlocksApart totalSize ((addr, size) :: blocks)) :
    ∃ par', par.allocFixed addr size = some par' ∧
      Partitions totalSize ⟨par', (addr, size) :: blocks⟩ := by
  obtain ⟨positive, bounded, apart, _⟩ := blocksApart_cons.mp apart
  have admissible : Admissible ⟨par, blocks⟩ (.allocFixed addr size) :=
    ⟨positive, partitions.totalSize_eq.symm ▸ bounded, apart⟩
  obtain ⟨gaps, res, taken⟩ := partitions.allocFixed_spec totalFits admissible
  exact ⟨_, res, partitions.take positive taken⟩

/-! ### The best gap -/

/-- No gap with room is smaller, but the last gap in the direction comes after all others. -/
def BestFit (gaps : List Gap) (size alignment : Nat) (dir : Direction) (position : Nat)
    (gap : Gap) : Prop :=
  gaps[position]? = some gap ∧ ∀ idx other addr, gaps[idx]? = some other →
    Holds other size alignment addr → idx ≠ lastPosition gaps.length dir →
      position ≠ lastPosition gaps.length dir ∧ gap.upper - gap.lower ≤ other.upper - other.lower

variable {gap : Gap} {size alignment addr : Nat} {dir : Direction} {gaps : List Gap}

theorem visitGap_least (gaps : List Gap) (size alignment : Nat) (dir : Direction)
    (positions : List Nat) :
    let found := positions.foldl (visitGap gaps size alignment dir) (none, 2 ^ 64 - 1)
    (found = (none, 2 ^ 64 - 1) ∨ ∃ position ∈ positions, ∃ gap, gaps[position]? = some gap ∧
      found = (some position, gap.size)) ∧
    ∀ position ∈ positions, ∀ gap, gaps[position]? = some gap →
      getAddrFromGap gap size alignment dir ≠ InvalidAddress → found.2 ≤ gap.size := by
  induction positions using reverseRecOn with
  | nil => exact ⟨inl rfl, forall_mem_nil _⟩
  | append_singleton positions last ih =>
    rw [foldl_append, foldl_cons, foldl_nil]
    generalize positions.foldl (visitGap gaps size alignment dir) (none, 2 ^ 64 - 1) = before
      at ih ⊢
    obtain ⟨chosen, least⟩ := ih
    have kept : before = (none, 2 ^ 64 - 1) ∨ ∃ position ∈ positions ++ [last], ∃ gap,
        gaps[position]? = some gap ∧ before = (some position, gap.size) :=
      chosen.imp_right fun ⟨position, mem, found⟩ => ⟨position, mem_append_left _ mem, found⟩
    unfold visitGap
    split
    · next absent =>
      refine ⟨kept, fun position mem gap present suitable => ?_⟩
      rcases mem_append.mp mem with old | new
      · exact least position old gap present suitable
      · rw [mem_singleton.mp new, absent] at present
        cases present
    · next gap present =>
      split_ifs with better
      · refine ⟨inr ⟨last, by simp, gap, present, rfl⟩, fun position mem other found suitable => ?_⟩
        rcases mem_append.mp mem with old | new
        · exact (le_of_lt better.2).trans (least position old other found suitable)
        · rw [mem_singleton.mp new, present] at found
          rw [Option.some.inj found]
      · refine ⟨kept, fun position mem other found suitable => ?_⟩
        rcases mem_append.mp mem with old | new
        · exact least position old other found suitable
        · rw [mem_singleton.mp new, present, Option.some.injEq] at found
          subst found
          exact not_lt.mp fun smaller => better ⟨suitable, smaller⟩

theorem mem_visitedPositions {count position : Nat} :
    position ∈ visitedPositions count dir ↔
      position < count ∧ position ≠ lastPosition count dir := by
  cases dir with
  | up =>
    simp only [visitedPositions, lastPosition, mem_range]
    omega
  | down =>
    simp only [visitedPositions, lastPosition, mem_map, mem_reverse, mem_range]
    constructor
    · rintro ⟨idx, inside, rfl⟩
      omega
    · exact fun inside => ⟨position - 1, by omega, by omega⟩

/-- Only the last gap in the direction can have all addresses. -/
theorem size_lt_of_not_last {totalSize position : Nat} (wellFormed : GapsWellFormed totalSize gaps)
    (totalFits : totalSize < 2 ^ 64) (present : gaps[position]? = some gap)
    (other : position ≠ lastPosition gaps.length dir) : gap.size < 2 ^ 64 - 1 := by
  obtain ⟨inside, rfl⟩ := List.getElem?_eq_some_iff.mp present
  have bounded := fun idx (bound : idx < gaps.length) =>
    wellFormed.bounded gaps[idx] (getElem_mem bound)
  have pos := fun idx (bound : idx < gaps.length) =>
    wellFormed.separated.nonempty gaps[idx] (getElem_mem bound)
  have apart := pairwise_iff_getElem.mp wellFormed.separated.apart
  have fits := bounded position inside
  rw [size_eq _ (pos position inside) (by omega)]
  cases dir with
  | up =>
    have last : position < gaps.length - 1 := by
      simp only [lastPosition] at other
      omega
    have next := apart position (gaps.length - 1) inside (by omega) last
    have := bounded (gaps.length - 1) (by omega)
    have := pos (gaps.length - 1) (by omega)
    omega
  | down =>
    have next := apart 0 position (by omega) inside (Nat.pos_of_ne_zero other)
    have := pos 0 (by omega)
    omega

/-- What the search finds, where it accepts all gaps with room. -/
theorem minimalGapPosition_best {totalSize : Nat} (wellFormed : GapsWellFormed totalSize gaps)
    (totalFits : totalSize < 2 ^ 64)
    (suitable : ∀ gap ∈ gaps, ∀ addr, Holds gap size alignment addr →
      getAddrFromGap gap size alignment dir ≠ InvalidAddress) :
    (minimalGapPosition gaps size alignment dir = none →
      ∀ gap ∈ gaps, ∀ addr, ¬ Holds gap size alignment addr) ∧
    ∀ position, minimalGapPosition gaps size alignment dir = some position →
      ∃ gap, BestFit gaps size alignment dir position gap := by
  have sizes : ∀ gap ∈ gaps, gap.size = gap.upper - gap.lower := fun gap mem =>
    size_eq gap (wellFormed.separated.nonempty gap mem)
      ((wellFormed.bounded gap mem).trans_lt totalFits)
  have visited : ∀ {idx gap}, gaps[idx]? = some gap → idx ≠ lastPosition gaps.length dir →
      idx ∈ visitedPositions gaps.length dir := fun present other =>
    mem_visitedPositions.mpr ⟨(List.getElem?_eq_some_iff.mp present).1, other⟩
  unfold minimalGapPosition
  obtain ⟨chosen, least⟩ :=
    visitGap_least gaps size alignment dir (visitedPositions gaps.length dir)
  rcases chosen with nothing | ⟨position, mem, gap, present, found⟩
  · have last : ∀ idx gap addr, gaps[idx]? = some gap → Holds gap size alignment addr →
        idx = lastPosition gaps.length dir := by
      intro idx gap addr present holds
      by_contra other
      have less := least idx (visited present other) gap present
        (suitable gap (mem_of_getElem? present) addr holds)
      rw [nothing] at less
      exact absurd (size_lt_of_not_last wellFormed totalFits present other) less.not_gt
    simp only [nothing]
    constructor
    · intro none gap mem addr holds
      obtain ⟨idx, present⟩ := mem_iff_getElem?.mp mem
      rw [← last idx gap addr present holds, present] at none
      simp only [if_pos (suitable gap mem addr holds)] at none
      cases none
    · intro position chosen
      split at chosen
      · cases chosen
      · next gap present =>
        split_ifs at chosen with room
        obtain rfl := Option.some.inj chosen
        exact ⟨gap, present, fun idx other addr found holds different =>
          absurd (last idx other addr found holds) different⟩
  · simp only [found]
    refine ⟨(fun none => by cases none), fun other equal => ?_⟩
    obtain rfl := Option.some.inj equal
    refine ⟨gap, present, fun idx other addr present' holds different =>
      ⟨(mem_visitedPositions.mp mem).2, ?_⟩⟩
    have less := least idx (visited present' different) other present'
      (suitable other (mem_of_getElem? present') addr holds)
    rw [found] at less
    rw [← sizes gap (mem_of_getElem? present), ← sizes other (mem_of_getElem? present')]
    exact less

/-- `alloc` is complete and takes the best gap. -/
theorem alloc_bestFit {totalSize : Nat} {client : Client} (positive : 0 < totalSize)
    (totalFits : totalSize < 2 ^ 64) (reached : Reachable totalSize client)
    (admissible : Admissible client (.alloc size alignment dir)) :
    ((client.par.alloc size alignment dir).1 = InvalidAddress ↔
      ∀ gap ∈ client.par.gaps, ∀ addr, ¬ Holds gap size alignment addr) ∧
    ((client.par.alloc size alignment dir).1 ≠ InvalidAddress → ∃ position gap,
      BestFit client.par.gaps size alignment dir position gap ∧
        Placed gap size alignment dir (client.par.alloc size alignment dir).1) := by
  obtain ⟨rfl, wellFormed, -⟩ := reached.partitions positive totalFits
  obtain ⟨sizePositive, alignmentPositive, fits⟩ := admissible
  have cases_of : ∀ gap ∈ client.par.gaps, _ := fun gap mem => getAddrFromGap_cases gap size
    alignment dir (wellFormed.separated.nonempty gap mem)
    ((wellFormed.bounded gap mem).trans_lt totalFits) alignmentPositive (fits gap mem)
  obtain ⟨none, best⟩ := minimalGapPosition_best wellFormed totalFits fun gap mem addr holds => by
    rcases cases_of gap mem with none | ⟨place, -⟩
    · exact absurd holds (none.2 addr)
    · intro invalid
      have upper := place.upper
      have bounded := wellFormed.bounded gap mem
      rw [invalid] at upper
      unfold InvalidAddress at upper
      omega
  unfold alloc
  cases chosen : minimalGapPosition client.par.gaps size alignment dir with
  | none => exact ⟨iff_of_true rfl (none chosen), fun valid => absurd rfl valid⟩
  | some position =>
    obtain ⟨gap, present, least⟩ := best position chosen
    obtain ⟨other, found, valid⟩ := minimalGapPosition_suitable _ _ _ _ _ chosen
    obtain rfl := Option.some.inj (present.symm.trans found)
    have mem := mem_of_getElem? present
    rcases cases_of gap mem with none | placed
    · exact absurd none.1 valid
    · simp only [present]
      exact ⟨iff_of_false valid fun full => full gap mem _ placed.1,
        fun _ => ⟨position, gap, ⟨present, least⟩, placed⟩⟩

/-- An alignment that overflows gives a block that is not free. -/
theorem alloc_overflows : ∃ client, Reachable 100 client ∧
    (client.par.alloc 5 (2 ^ 64 - 1) .up).1 ≠ InvalidAddress ∧
      ∀ gap ∈ client.par.gaps, ∀ addr, ¬ Holds gap 5 (2 ^ 64 - 1) addr := by
  refine ⟨⟨⟨[⟨10, 100⟩], 100⟩, [(0, 10)]⟩, .step (.allocFixed 0 10) .init ?_ (by decide),
    by decide, ?_⟩
  · exact ⟨by decide, by decide, forall_mem_nil _⟩
  · rintro gap mem addr ⟨divides, lower, upper⟩
    obtain rfl := mem_singleton.mp mem
    have above := Nat.le_of_dvd (Nat.lt_of_lt_of_le (by decide) lower) divides
    have below : addr + 5 ≤ 100 := upper
    omega

theorem alloc_bestFit_example :
    (((init 33).alloc 4 16 .down).1 = InvalidAddress ↔
      ∀ gap ∈ (init 33).gaps, ∀ addr, ¬ Holds gap 4 16 addr) ∧
    (((init 33).alloc 4 16 .down).1 ≠ InvalidAddress → ∃ position gap,
      BestFit (init 33).gaps 4 16 .down position gap ∧
        Placed gap 4 16 .down ((init 33).alloc 4 16 .down).1) := by
  refine alloc_bestFit (by decide) (by decide) (.init : Reachable 33 ⟨init 33, []⟩)
    ⟨by decide, by decide, fun gap mem _ => ?_⟩
  rw [mem_singleton.mp mem]
  exact ⟨by decide, by decide, by decide⟩

end NpuPlugin.Partitioner
