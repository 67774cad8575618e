/-
This file proves what `LinearScan::alloc` does: a call that succeeds keeps the live ranges and the
reserved blocks a partition of the memory, and one that fails is rolled back.
-/

import Mathlib.Data.List.Forall2
import NpuPlugin.LinearScan.Model

namespace NpuPlugin.LinearScan

open Bool Intervals List Option Or Partitioner Prod

variable {LiveRange State : Type}

/-- How a scan in the middle of `alloc` relates to the one at its start. -/
structure Follows (handler : Handler LiveRange State) (allowSpills : Bool)
    (start scan : LinearScan LiveRange State) : Prop where
  live : ∃ lost, start.liveRanges.Perm (lost ++ scan.liveRanges)
  address : ∀ range, range ∉ start.liveRanges ∨ range ∈ scan.liveRanges →
    handler.getAddress scan.handler range = handler.getAddress start.handler range
  untouched : allowSpills = false ∨ start.liveRanges = [] →
    scan.liveRanges = start.liveRanges ∧ scan.handler = start.handler

theorem Follows.refl (handler : Handler LiveRange State) (allowSpills : Bool)
    (start : LinearScan LiveRange State) : Follows handler allowSpills start start :=
  ⟨⟨[], List.Perm.refl _⟩, fun _ _ => rfl, fun _ => ⟨rfl, rfl⟩⟩

variable {allowSpills : Bool} {scan : LinearScan LiveRange State}

section

variable {handler : Handler LiveRange State} {start : LinearScan LiveRange State}
  (follows : Follows handler allowSpills start scan)
include follows

theorem Follows.mem_start {range : LiveRange} (mem : range ∈ scan.liveRanges) :
    range ∈ start.liveRanges := by
  obtain ⟨lost, split⟩ := follows.live
  exact split.mem_iff.mpr (mem_append_right lost mem)

theorem Follows.nodup (nodup : start.liveRanges.Nodup) : scan.liveRanges.Nodup := by
  obtain ⟨lost, split⟩ := follows.live
  exact (nodup_append.mp (split.nodup_iff.mp nodup)).2.1

end

variable {last middle : LinearScan LiveRange State} {others others' : List (Nat × Nat)}

theorem Follows.spilled {handler : Handler LiveRange State} {totalSize : Nat}
    {keeps : LiveRange → Bool} {taken kept : List LiveRange}
    {start scan' : LinearScan LiveRange State} (follows : Follows handler allowSpills start scan)
    (nodup : start.liveRanges.Nodup) (takes : Taken handler totalSize others scan taken last)
    (careful : allowSpills = false → taken = [])
    (spilled : Spilled handler totalSize others' keeps taken middle kept scan')
    (live : middle.liveRanges = last.liveRanges) (state : middle.handler = last.handler) :
    Follows handler allowSpills start scan' := by
  have keptTaken : ∀ range ∈ kept, range ∈ taken := fun range mem =>
    (mem_filter.mp (spilled.sublist.subset mem)).1
  have takenLive : ∀ range ∈ taken, range ∈ scan.liveRanges := fun range mem =>
    takes.live.mem_iff.mpr (mem_append_left _ mem)
  have lastLive : ∀ range ∈ last.liveRanges, range ∈ scan.liveRanges := fun range mem =>
    takes.live.mem_iff.mpr (mem_append_right _ mem)
  have lastApart : ∀ range ∈ last.liveRanges, range ∉ taken := by
    intro range inLast inTaken
    have split := takes.live.nodup_iff.mp (follows.nodup nodup)
    exact (nodup_append.mp split).2.2 _ inTaken _ inLast rfl
  refine ⟨?_, ?_, ?_⟩
  · obtain ⟨lost, split⟩ := follows.live
    obtain ⟨gone, rest⟩ := (spilled.sublist.trans filter_sublist).exists_perm_append
    refine ⟨lost ++ gone, ?_⟩
    rw [spilled.live, live, append_assoc]
    refine split.trans (List.Perm.append_left lost (takes.live.trans ?_))
    refine (rest.append_right _).trans ?_
    calc kept ++ gone ++ last.liveRanges
      _ |>.Perm (gone ++ kept ++ last.liveRanges) := perm_append_comm.append_right _
      _ = gone ++ (kept ++ last.liveRanges) := append_assoc _ _ _
      _ |>.Perm (gone ++ (last.liveRanges ++ kept)) := perm_append_comm.append_left _
  · have chain : ∀ range, range ∉ taken ∨ range ∈ kept →
        range ∉ start.liveRanges ∨ range ∈ scan.liveRanges →
          handler.getAddress scan'.handler range = handler.getAddress start.handler range := by
      intro range spared known
      rw [spilled.address range spared, state, takes.handler_eq]
      exact follows.address range known
    rintro range (absent | mem)
    · refine chain range (inl fun inTaken => absent ?_) (inl absent)
      exact follows.mem_start (takenLive range inTaken)
    · rw [spilled.live, live] at mem
      rcases mem_append.mp mem with inLast | inKept
      · exact chain range (inl (lastApart range inLast)) (inr (lastLive range inLast))
      · exact chain range (inr inKept) (inr (takenLive range (keptTaken range inKept)))
  · intro quiet
    obtain ⟨sameLive, sameHandler⟩ := follows.untouched quiet
    have none : taken = [] := by
      rcases quiet with no | empty
      · exact careful no
      · refine eq_nil_iff_forall_not_mem.mpr fun range mem => ?_
        have inScan := takenLive range mem
        rw [sameLive, empty] at inScan
        exact not_mem_nil inScan
    rw [spilled.unchanged none, live, state, takes.unchanged none]
    exact ⟨sameLive, sameHandler⟩

theorem Follows.taken {handler : Handler LiveRange State} {totalSize : Nat} {taken : List LiveRange}
    {start : LinearScan LiveRange State} (follows : Follows handler allowSpills start scan)
    (nodup : start.liveRanges.Nodup) (takes : Taken handler totalSize others scan taken last)
    (careful : allowSpills = false → taken = []) : Follows handler allowSpills start last := by
  have nothing : Spilled handler totalSize others (fun _ => false) taken last [] last :=
    ⟨takes.held, (append_nil _).symm, nil_sublist _, fun _ _ => rfl, fun _ => rfl⟩
  exact follows.spilled nodup takes careful nothing rfl rfl

/-! ### Rolling back -/

theorem rollback_fields (allocatedAddrs : AllocatedAddrs) (scan : LinearScan LiveRange State) :
    (rollback allocatedAddrs scan).liveRanges = scan.liveRanges ∧
      (rollback allocatedAddrs scan).handler = scan.handler := by
  unfold rollback
  induction allocatedAddrs generalizing scan with
  | nil => exact ⟨rfl, rfl⟩
  | cons entry rest ih =>
    rw [foldl_cons]
    obtain ⟨live, state⟩ := ih
      (if entry.2.1 = InvalidAddress then scan else scan.free entry.2.1 entry.2.2)
    rw [live, state]
    split
    · exact ⟨rfl, rfl⟩
    · exact ⟨rfl, rfl⟩

theorem rollback_held {handler : Handler LiveRange State} {totalSize : Nat}
    (totalFits : totalSize < 2 ^ 64)
    (allocatedAddrs : AllocatedAddrs) (scan : LinearScan LiveRange State)
    (held : Held handler totalSize (allocatedAddrs.map Prod.snd ++ others) scan) :
    Held handler totalSize others (rollback allocatedAddrs scan) := by
  unfold rollback
  induction allocatedAddrs generalizing scan with
  | nil => exact held
  | cons entry rest ih =>
    have moved : (liveBlocks handler scan ++ (entry.2 :: (rest.map snd ++ others))).Perm
        (entry.2 :: (liveBlocks handler scan ++ (rest.map snd ++ others))) :=
      perm_middle
    have partitions : Partitions totalSize ⟨scan.par, (entry.2.1, entry.2.2) :: _⟩ :=
      Partitions.perm held moved
    have valid : entry.2.1 ≠ InvalidAddress := by
      have positive := partitions.positive _ mem_cons_self
      have bounded := partitions.bounded _ mem_cons_self
      unfold InvalidAddress
      omega
    rw [foldl_cons, if_neg valid]
    exact ih _ (partitions.release_head totalFits)

theorem Follows.rollback {handler : Handler LiveRange State} {start : LinearScan LiveRange State}
    (follows : Follows handler allowSpills start scan) (allocatedAddrs : AllocatedAddrs) :
    Follows handler allowSpills start (rollback allocatedAddrs scan) := by
  obtain ⟨live, state⟩ := rollback_fields allocatedAddrs scan
  refine ⟨?_, ?_, ?_⟩
  · rw [live]
    exact follows.live
  · rw [live, state]
    exact follows.address
  · rw [live, state]
    exact follows.untouched

/-! ### Placing one range -/

/-- A handler that spills every live range it is asked to. -/
def NeverRefuses (handler : Handler LiveRange State) (scan : LinearScan LiveRange State) : Prop :=
  ∀ range ∈ scan.liveRanges, ∀ state, (handler.spilled state range).1 = true

/-- A call that failed: with spills, some range that was live is not live any more. A block may
stay allocated although no range holds it; not so when no spill can be refused. -/
structure Failed (handler : Handler LiveRange State) (totalSize : Nat)
    (reserved : List (Nat × Nat)) (allowSpills : Bool) (accepting : Prop)
    (start scan : LinearScan LiveRange State) : Prop where
  lost : allowSpills = true → start.liveRanges ≠ [] →
    ∃ range ∈ start.liveRanges, range ∉ scan.liveRanges
  follows : Follows handler allowSpills start scan
  held : ∃ leaked, Held handler totalSize (leaked ++ reserved) scan ∧
    (accepting ∨ allowSpills = false ∨ start.liveRanges = [] → leaked = [])

variable {others : List (Nat × Nat)} {totalSize addr size : Nat} {handler : Handler LiveRange State}
  {taken : List LiveRange} {scan last : LinearScan LiveRange State} {reserved : List (Nat × Nat)}
  {allocatedAddrs : AllocatedAddrs} {allowSpills : Bool} {start scan' : LinearScan LiveRange State}

theorem apart_with_new (totalFits : totalSize < 2 ^ 64) {places : LiveRange → Nat × Nat}
    {live : List LiveRange} (apart : BlocksApart totalSize ((taken ++ live).map places ++ others))
    (positive : 0 < size) (bounded : addr + size ≤ totalSize)
    (away : ApartFromLive (live.map places ++ others) addr size) :
    BlocksApart totalSize ((addr, size) ::
      ((taken.filter (keepsBlock places addr size) ++ live).map places ++ others)) := by
  have fewer : BlocksApart totalSize
      ((taken.filter (keepsBlock places addr size) ++ live).map places ++ others) :=
    apart.sublist (((filter_sublist.append_right _).map _).append_right _)
  refine blocksApart_cons.mpr ⟨positive, bounded, fun block mem => ?_, fewer⟩
  rw [map_append, append_assoc] at mem
  rcases mem_append.mp mem with inKept | elsewhere
  · obtain ⟨range, inFilter, rfl⟩ := mem_map.mp inKept
    obtain ⟨inTaken, keeps⟩ := mem_filter.mp inFilter
    have inside : places range ∈ (taken ++ live).map places ++ others :=
      mem_append_left _ (mem_map_of_mem (mem_append_left _ inTaken))
    have separate := (intersects_eq_false_iff totalFits (apart.positive _ inside) positive
      (apart.bounded _ inside) bounded).mp (not_eq_true' _ ▸ keeps)
    exact fun point inNew inOld => separate point inOld inNew
  · exact away block elsewhere

theorem apartFromLive_eq_true (totalFits : totalSize < 2 ^ 64)
    (held : Held handler totalSize others scan) (positive : 0 < size)
    (bounded : addr + size ≤ totalSize) (passed : apartFromLive handler addr size scan = true) :
    ApartFromLive (liveBlocks handler scan) addr size := by
  intro block mem
  obtain ⟨range, live, rfl⟩ := mem_map.mp mem
  have inside : LinearScan.block handler scan.handler range ∈ liveBlocks handler scan ++ others :=
    mem_append_left _ mem
  have separate := not_eq_true' _ ▸ (all_eq_true.mp passed range live)
  exact (intersects_eq_false_iff totalFits positive (held.positive _ inside) bounded
    (held.bounded _ inside)).mp separate

theorem Taken.apart (takes : Taken handler totalSize others scan taken last)
    (held : Held handler totalSize others scan) :
    BlocksApart totalSize
      ((taken ++ last.liveRanges).map (block handler last.handler) ++ others) := by
  refine (Partitions.blocksApart held).perm ?_
  rw [takes.handler_eq]
  exact (takes.live.map _).append_right others

theorem held_with_new {par : Partitioner} (key : Nat)
    (partitions : Partitions totalSize ⟨par, (addr, size) ::
      (liveBlocks handler scan ++ (allocatedAddrs.map Prod.snd ++ reserved))⟩) :
    Held handler totalSize
      ((allocatedAddrs ++ [(key, addr, size)]).map Prod.snd ++ reserved)
      { scan with par := par } := by
  refine partitions.perm ?_
  rw [map_append, map_singleton, append_assoc, singleton_append]
  exact perm_middle.symm.trans (perm_middle.symm.append_left _)

theorem failed_of_no_room (totalFits : totalSize < 2 ^ 64) (nodup : start.liveRanges.Nodup)
    (accepting : Prop) (follows : Follows handler allowSpills start scan)
    (takes : Taken handler totalSize (allocatedAddrs.map Prod.snd ++ reserved) scan taken last)
    (careful : allowSpills = false → taken = [])
    (exhausted : allowSpills = true → last.liveRanges = []) :
    Failed handler totalSize reserved allowSpills accepting start
      (rollback allocatedAddrs last) := by
  refine ⟨fun spills nonempty => ?_, (follows.taken nodup takes careful).rollback _,
    [], rollback_held totalFits _ _ takes.held, fun _ => rfl⟩
  obtain ⟨range, mem⟩ := exists_mem_of_ne_nil _ nonempty
  refine ⟨range, mem, ?_⟩
  rw [(rollback_fields allocatedAddrs last).1, exhausted spills]
  exact not_mem_nil

variable {kept : List LiveRange}

/-- A candidate the handler could not spill is lost. -/
theorem failed_of_refused {keeps : LiveRange → Bool} (nodup : start.liveRanges.Nodup)
    {accepting : Prop} (follows : Follows handler allowSpills start scan)
    (takes : Taken handler totalSize others scan taken last)
    (careful : allowSpills = false → taken = [])
    (spilled : Spilled handler totalSize others' keeps taken middle kept scan')
    (live : middle.liveRanges = last.liveRanges) (state : middle.handler = last.handler)
    (refused : ∃ range ∈ taken, range ∉ kept ∧ ∃ state, (handler.spilled state range).1 = false)
    (held : ∃ leaked, Held handler totalSize (leaked ++ reserved) (rollback allocatedAddrs scan') ∧
        (accepting ∨ allowSpills = false ∨ start.liveRanges = [] → leaked = [])) :
    Failed handler totalSize reserved allowSpills accepting start
      (rollback allocatedAddrs scan') := by
  refine ⟨fun _ _ => ?_, (follows.spilled nodup takes careful spilled live state).rollback _, held⟩
  obtain ⟨range, inTaken, notKept, _⟩ := refused
  have inScan : range ∈ scan.liveRanges := takes.live.mem_iff.mpr (mem_append_left _ inTaken)
  refine ⟨range, follows.mem_start inScan, ?_⟩
  rw [(rollback_fields allocatedAddrs scan').1, spilled.live, live]
  have split := takes.live.nodup_iff.mp (follows.nodup nodup)
  have notLast : range ∉ last.liveRanges := fun inLast =>
    (nodup_append.mp split).2.2 _ inTaken _ inLast rfl
  exact fun mem => (mem_append.mp mem).elim notLast notKept

theorem Spilled.apart_new (spilled : Spilled handler totalSize others
      (keepsBlock (block handler last.handler) addr size) taken last kept scan')
    (nodup : (taken ++ last.liveRanges).Nodup) (apart : BlocksApart totalSize ((addr, size) ::
      ((taken.filter (keepsBlock (block handler last.handler) addr size) ++
        last.liveRanges).map (block handler last.handler) ++ others))) :
    BlocksApart totalSize ((addr, size) :: (liveBlocks handler scan' ++ others)) := by
  have inPlace : liveBlocks handler scan' =
      (last.liveRanges ++ kept).map (block handler last.handler) := by
    unfold liveBlocks
    rw [spilled.live]
    refine map_block_congr handler fun range mem => spilled.address range ?_
    rcases mem_append.mp mem with inLast | inKept
    · exact inl fun inTaken => (nodup_append.mp nodup).2.2 _ inTaken _ inLast rfl
    · exact inr inKept
  rw [inPlace]
  have fewer := apart.sublist ((((spilled.sublist.append_right last.liveRanges).map
    (block handler last.handler)).append_right others).cons_cons (addr, size))
  exact fewer.perm (((perm_append_comm.map _).append_right others).cons _)

/-- A fixed range apart from the reserved blocks and the blocks of the same call gets its
address, or the call fails and is rolled back. -/
theorem allocFixedRange_spec (lawful : handler.Lawful) (totalFits : totalSize < 2 ^ 64)
    {newRange : LiveRange} (key : Nat) (nodup : start.liveRanges.Nodup)
    (follows : Follows handler allowSpills start scan)
    (held : Held handler totalSize (allocatedAddrs.map Prod.snd ++ reserved) scan)
    (fresh : newRange ∉ start.liveRanges) (apart : BlocksApart totalSize
      (block handler start.handler newRange :: (allocatedAddrs.map Prod.snd ++ reserved))) :
    (∃ scan', allocFixedRange handler allowSpills newRange key allocatedAddrs scan =
        .ok (some (allocatedAddrs ++ [(key, block handler start.handler newRange)]), scan') ∧
      Follows handler allowSpills start scan' ∧
      Held handler totalSize
        ((allocatedAddrs ++ [(key, block handler start.handler newRange)]).map Prod.snd ++ reserved)
        scan') ∨
    ∃ scan', allocFixedRange handler allowSpills newRange key allocatedAddrs scan =
        .ok (none, scan') ∧
      Failed handler totalSize reserved allowSpills True start scan' := by
  have address : handler.getAddress scan.handler newRange =
      handler.getAddress start.handler newRange := follows.address newRange (inl fresh)
  set addr := handler.getAddress start.handler newRange with addrEq
  set size := handler.getSize newRange with sizeEq
  set others := allocatedAddrs.map snd ++ reserved with othersEq
  obtain ⟨positive, bounded, awayOthers, _⟩ := blocksApart_cons.mp apart
  obtain ⟨taken, last, takes, careful, outcome⟩ := makeRoom_spec totalFits
    (attemptFixed handler addr size) (fun _ _ _ => rfl) allowSpills scan.liveRanges.length []
    scan held rfl
  unfold allocFixedRange
  dsimp only
  rw [address, ← sizeEq]
  rcases outcome with ⟨found, scan', attempted, res⟩ | ⟨exhausted, res⟩
  · rw [res, nil_append]
    dsimp only
    have passed : apartFromLive handler addr size last = true := by
      by_contra no
      rw [attemptFixed, if_neg no] at attempted
      exact absurd (congrArg fst attempted) (by simp)
    have same : last = scan' := congrArg snd attempted
    subst same
    have awayLive := apartFromLive_eq_true totalFits takes.held positive bounded passed
    have apartAll := apart_with_new totalFits (takes.apart held) positive bounded
      fun block mem => (mem_append.mp mem).elim (awayLive block) (awayOthers block)
    have split := takes.live.nodup_iff.mp (follows.nodup nodup)
    obtain ⟨accepted, kept, scan', performed, spilled, refused⟩ := performActualSpill_spec lawful
      totalFits (block handler last.handler) addr size taken last takes.held (fun _ _ => rfl)
      (blocksApart_cons.mp apartAll).2.2.2 split
    rw [performed]
    cases accepted with
    | false =>
      exact inr ⟨_, rfl, failed_of_refused nodup follows takes careful spilled rfl rfl
        (refused rfl) ⟨[], rollback_held totalFits _ _ spilled.held, fun _ => rfl⟩⟩
    | true =>
      obtain ⟨par', allocated, partitions⟩ :=
        spilled.held.allocFixed_ok totalFits (spilled.apart_new split apartAll)
      dsimp only
      rw [allocated]
      have follows' := follows.spilled nodup takes careful spilled rfl rfl
      refine inl ⟨_, rfl, ⟨follows'.live, follows'.address, follows'.untouched⟩, ?_⟩
      exact held_with_new key partitions
  · rw [res]
    exact inr ⟨_, rfl, failed_of_no_room totalFits nodup True follows takes careful exhausted⟩

theorem attemptPlain_spec (held : Held handler totalSize others scan) {alignment : Nat}
    (sizePositive : 0 < size) (alignmentPositive : 0 < alignment)
    (roomy : totalSize + alignment ≤ 2 ^ 64) (dir : Direction) :
    attemptPlain size alignment dir scan = (none, scan) ∨
      ∃ addr par', attemptPlain size alignment dir scan = (some addr, { scan with par := par' }) ∧
        alignment ∣ addr ∧
        Partitions totalSize ⟨par', (addr, size) :: (liveBlocks handler scan ++ others)⟩ := by
  unfold attemptPlain
  rcases Partitions.alloc_head held sizePositive alignmentPositive roomy dir with
    failed | ⟨addr, par', res, valid, divides, partitions⟩
  · rw [failed]
    dsimp only
    rw [if_pos rfl]
    exact inl rfl
  · rw [res]
    dsimp only
    rw [if_neg valid]
    exact inr ⟨addr, par', rfl, divides, partitions⟩

/-- A plain range gets an aligned block, or the call fails and is rolled back; only when the
handler refused to spill a candidate does the block of the range itself stay allocated. -/
theorem allocPlainRange_spec (lawful : handler.Lawful) (totalFits : totalSize < 2 ^ 64)
    (dir : Direction) (newRange : LiveRange) (key : Nat) (nodup : start.liveRanges.Nodup)
    (follows : Follows handler allowSpills start scan)
    (held : Held handler totalSize (allocatedAddrs.map Prod.snd ++ reserved) scan)
    (sizePositive : 0 < handler.getSize newRange)
    (alignmentPositive : 0 < handler.getAlignment newRange)
    (roomy : totalSize + handler.getAlignment newRange ≤ 2 ^ 64) :
    (∃ addr scan', allocPlainRange handler allowSpills dir newRange key allocatedAddrs scan =
        .ok (some (allocatedAddrs ++ [(key, addr, handler.getSize newRange)]), scan') ∧
      handler.getAlignment newRange ∣ addr ∧ Follows handler allowSpills start scan' ∧
      Held handler totalSize
        ((allocatedAddrs ++ [(key, addr, handler.getSize newRange)]).map Prod.snd ++ reserved)
        scan') ∨
    ∃ scan', allocPlainRange handler allowSpills dir newRange key allocatedAddrs scan =
        .ok (none, scan') ∧
      Failed handler totalSize reserved allowSpills (NeverRefuses handler start) start scan' := by
  set size := handler.getSize newRange with sizeEq
  set alignment := handler.getAlignment newRange with alignmentEq
  set others := allocatedAddrs.map snd ++ reserved with othersEq
  have attempts : ∀ scan, Held handler totalSize others scan → _ := fun scan held =>
    attemptPlain_spec held sizePositive alignmentPositive roomy dir
  have failing : ∀ scan, Held handler totalSize others scan →
      (attemptPlain size alignment dir scan).1 = none →
        (attemptPlain size alignment dir scan).2 = scan := by
    intro scan held no
    rcases attempts scan held with same | ⟨addr, par', res, _⟩
    · rw [same]
    · rw [res] at no
      exact absurd no (some_ne_none addr)
  obtain ⟨taken, last, takes, careful, outcome⟩ := makeRoom_spec totalFits
    (attemptPlain size alignment dir) failing allowSpills scan.liveRanges.length [] scan held rfl
  unfold allocPlainRange
  dsimp only
  rw [← sizeEq, ← alignmentEq]
  rcases outcome with ⟨addr, scan', attempted, res⟩ | ⟨exhausted, res⟩
  · rw [res, nil_append]
    dsimp only
    rcases attempts last takes.held with none | ⟨addr', par', found, divides, partitions⟩
    · rw [none] at attempted
      exact absurd (congrArg fst attempted) (some_ne_none addr).symm
    rw [found, Prod.mk.injEq, some_inj] at attempted
    obtain ⟨rfl, rfl⟩ := attempted
    obtain ⟨positive, bounded, away, _⟩ := blocksApart_cons.mp partitions.blocksApart
    have apart := (apart_with_new totalFits (takes.apart held) positive bounded away).perm
      perm_middle.symm
    have split := takes.live.nodup_iff.mp (follows.nodup nodup)
    obtain ⟨accepted, kept, scan', performed, spilled, refused⟩ := performActualSpill_spec lawful
      totalFits (block handler last.handler) addr' size taken { last with par := par' }
      (partitions.perm perm_middle.symm) (fun _ _ => rfl) apart split
    rw [performed]
    cases accepted with
    | false =>
      obtain ⟨range, inTaken, lost, state, refuses⟩ := refused rfl
      have inStart : range ∈ start.liveRanges :=
        follows.mem_start (takes.live.mem_iff.mpr (mem_append_left _ inTaken))
      have released : Held handler totalSize ([(addr', size)] ++ reserved)
          (rollback allocatedAddrs scan') :=
        rollback_held totalFits _ _ (Partitions.perm spilled.held (perm_middle.symm.append_left _))
      refine inr ⟨_, rfl, failed_of_refused nodup follows takes careful spilled rfl rfl
        ⟨range, inTaken, lost, state, refuses⟩ ⟨_, released, ?_⟩⟩
      rintro (willing | no | empty)
      · exact absurd (willing range inStart state) (eq_false_iff.mp refuses)
      · exact absurd (careful no ▸ inTaken) not_mem_nil
      · exact absurd (empty ▸ inStart) not_mem_nil
    | true =>
      refine inl ⟨addr', scan', rfl, divides,
        follows.spilled nodup takes careful spilled rfl rfl, ?_⟩
      exact held_with_new key (Partitions.perm spilled.held perm_middle)
  · rw [res]
    exact inr ⟨_, rfl, failed_of_no_room totalFits nodup _ follows takes careful exhausted⟩

/-! ### The call -/

variable (handler : Handler LiveRange State) (totalSize : Nat)

/-- The live ranges are distinct and aligned, and with the reserved blocks they are what the
memory holds. -/
structure Sound (reserved : List (Nat × Nat)) (scan : LinearScan LiveRange State) : Prop where
  held : Held handler totalSize reserved scan
  nodup : scan.liveRanges.Nodup
  aligned : ∀ range ∈ scan.liveRanges,
    handler.getAlignment range ∣ handler.getAddress scan.handler range

/-- Sizes and alignments are positive, and the sums of an aligned allocation stay below
`2 ^ 64`. -/
def Sized (range : LiveRange) : Prop :=
  0 < handler.getSize range ∧ 0 < handler.getAlignment range ∧
    totalSize + handler.getAlignment range ≤ 2 ^ 64

/-- What `alloc` may be asked for: distinct ranges that are not live yet, where the fixed ones
are aligned and apart from each other and lie in memory that is free or held by live ranges. -/
structure Fitting (newLiveRanges : List LiveRange) (scan : LinearScan LiveRange State) : Prop where
  nodup : newLiveRanges.Nodup
  fresh : ∀ range ∈ newLiveRanges, range ∉ scan.liveRanges
  sized : ∀ range ∈ newLiveRanges, Sized handler totalSize range
  fixedAligned : ∀ range ∈ newLiveRanges, handler.isFixedAlloc range = true →
    handler.getAlignment range ∣ handler.getAddress scan.handler range
  fixedApart : BlocksApart totalSize
    ((newLiveRanges.filter handler.isFixedAlloc).map (block handler scan.handler))
  fixedUsable : ∀ range ∈ newLiveRanges, handler.isFixedAlloc range = true → ∀ point,
    InBlock (handler.getAddress scan.handler range) (handler.getSize range) point →
      Covers scan.par.gaps point ∨
        ∃ block ∈ liveBlocks handler scan, InBlock block.1 block.2 point

variable {newLiveRanges : List LiveRange}

theorem Fitting.apart {handler : Handler LiveRange State} {totalSize : Nat}
    (fitting : Fitting handler totalSize newLiveRanges scan)
    (held : Held handler totalSize others scan) :
    BlocksApart totalSize
      ((newLiveRanges.filter handler.isFixedAlloc).map (block handler scan.handler) ++ others) := by
  obtain ⟨positive, bounded, pairwise⟩ := fitting.fixedApart
  have othersHeld : ∀ block ∈ others, block ∈ liveBlocks handler scan ++ others :=
    fun block mem => mem_append_right _ mem
  refine ⟨fun block mem => ?_, fun block mem => ?_, pairwise_append.mpr
    ⟨pairwise, (pairwise_append.mp held.apart).2.1, fun block inFixed other inOthers => ?_⟩⟩
  · exact (mem_append.mp mem).elim (positive block)
      fun inOthers => held.positive block (othersHeld block inOthers)
  · exact (mem_append.mp mem).elim (bounded block)
      fun inOthers => held.bounded block (othersHeld block inOthers)
  · intro point inside inOther
    obtain ⟨range, inFilter, rfl⟩ := mem_map.mp inFixed
    obtain ⟨inNew, isFixed⟩ := mem_filter.mp inFilter
    rcases fitting.fixedUsable range inNew isFixed point inside with free | ⟨live, inLive, inBlock⟩
    · exact held.notFree other (othersHeld other inOthers) point inOther free
    · exact (pairwise_append.mp held.apart).2.2 live inLive other inOthers point inBlock
        inOther

/-! ### The loops over the new ranges -/

/-- What each turn establishes holds at the end of the loop, or a turn failed. -/
theorem placeRanges_rule
    (place : LiveRange → Nat → AllocatedAddrs → LinearScan LiveRange State → Placed LiveRange State)
    (Holds : List (LiveRange × Nat) → AllocatedAddrs → LinearScan LiveRange State → Prop)
    (Fails : LinearScan LiveRange State → Prop)
    (turn : ∀ range key rest allocatedAddrs scan, Holds ((range, key) :: rest) allocatedAddrs scan →
      (∃ allocatedAddrs' scan',
        place range key allocatedAddrs scan = .ok (some allocatedAddrs', scan') ∧
          Holds rest allocatedAddrs' scan') ∨
      ∃ scan', place range key allocatedAddrs scan = .ok (none, scan') ∧ Fails scan')
    (ranges : List (LiveRange × Nat)) (allocatedAddrs : AllocatedAddrs)
    (scan : LinearScan LiveRange State) (holds : Holds ranges allocatedAddrs scan) :
    (∃ allocatedAddrs' scan',
      placeRanges place ranges allocatedAddrs scan = .ok (some allocatedAddrs', scan') ∧
        Holds [] allocatedAddrs' scan') ∨
    ∃ scan', placeRanges place ranges allocatedAddrs scan = .ok (none, scan') ∧ Fails scan' := by
  induction ranges generalizing allocatedAddrs scan with
  | nil => exact inl ⟨allocatedAddrs, scan, rfl, holds⟩
  | cons entry rest ih =>
    obtain ⟨range, key⟩ := entry
    unfold placeRanges
    rcases turn range key rest allocatedAddrs scan holds with
      ⟨allocatedAddrs', scan', placed, holds'⟩ | ⟨scan', failed, fails⟩
    · rw [placed]
      exact ih allocatedAddrs' scan' holds'
    · rw [failed]
      exact inr ⟨scan', rfl, fails⟩

/-- The block an entry of `AllocatedAddrs` records for a new range. -/
structure Records (start : LinearScan LiveRange State)
    (entry : LiveRange × Nat) (allocated : Nat × Nat × Nat) : Prop where
  key : allocated.1 = entry.2
  size : allocated.2.2 = handler.getSize entry.1
  aligned : handler.getAlignment entry.1 ∣ allocated.2.1
  fixed : handler.isFixedAlloc entry.1 = true →
    allocated.2.1 = handler.getAddress start.handler entry.1

/-- The state of `alloc` after the ranges in front of `ranges` were placed. -/
structure Placing (reserved : List (Nat × Nat)) (allowSpills : Bool)
    (start : LinearScan LiveRange State) (placed : List (LiveRange × Nat))
    (allocatedAddrs : AllocatedAddrs) (scan : LinearScan LiveRange State) : Prop where
  records : List.Forall₂ (Records handler start) placed allocatedAddrs
  follows : Follows handler allowSpills start scan
  held : Held handler totalSize (allocatedAddrs.map Prod.snd ++ reserved) scan

variable {handler : Handler LiveRange State} {start : LinearScan LiveRange State}
  {placed : List (LiveRange × Nat)} {allocatedAddrs : AllocatedAddrs} {totalSize : Nat}
  {reserved : List (Nat × Nat)}

theorem fixed_blocks (records : List.Forall₂ (Records handler start) placed allocatedAddrs)
    (fixed : ∀ entry ∈ placed, handler.isFixedAlloc entry.1 = true) :
    allocatedAddrs.map Prod.snd = placed.map fun entry => block handler start.handler entry.1 := by
  induction records with
  | nil => rfl
  | cons record _ ih =>
    obtain ⟨atHead, tail⟩ := forall_mem_cons.mp fixed
    rw [map_cons, map_cons, ih tail]
    exact congrArg (· :: _) (Prod.ext (record.fixed atHead) record.size)

theorem placeFixed_spec (lawful : handler.Lawful) (totalFits : totalSize < 2 ^ 64)
    (allowSpills : Bool) (nodup : start.liveRanges.Nodup)
    (held : Held handler totalSize reserved start) (fixedRanges : List (LiveRange × Nat))
    (fixed : ∀ entry ∈ fixedRanges, handler.isFixedAlloc entry.1 = true)
    (fresh : ∀ entry ∈ fixedRanges, entry.1 ∉ start.liveRanges) (aligned : ∀ entry ∈ fixedRanges,
      handler.getAlignment entry.1 ∣ handler.getAddress start.handler entry.1)
    (apart : BlocksApart totalSize
      ((fixedRanges.map fun entry => block handler start.handler entry.1) ++ reserved)) :
    (∃ allocatedAddrs scan, placeRanges (allocFixedRange handler allowSpills) fixedRanges [] start =
        .ok (some allocatedAddrs, scan) ∧
      Placing handler totalSize reserved allowSpills start fixedRanges allocatedAddrs scan) ∨
    ∃ scan, placeRanges (allocFixedRange handler allowSpills) fixedRanges [] start =
        .ok (none, scan) ∧
      Failed handler totalSize reserved allowSpills True start scan := by
  have outcome := placeRanges_rule (allocFixedRange handler allowSpills)
    (fun rest allocatedAddrs scan => ∃ placed, fixedRanges = placed ++ rest ∧
      Placing handler totalSize reserved allowSpills start placed allocatedAddrs scan)
    (Failed handler totalSize reserved allowSpills True start) ?_ fixedRanges [] start
    ⟨[], rfl, List.Forall₂.nil, Follows.refl handler allowSpills start, held⟩
  · rcases outcome with ⟨allocatedAddrs, scan, res, placed, whole, placing⟩ | failed
    · rw [append_nil] at whole
      exact inl ⟨allocatedAddrs, scan, res, whole ▸ placing⟩
    · exact inr failed
  · rintro range key rest allocatedAddrs scan ⟨placed, whole, placing⟩
    have mem : (range, key) ∈ fixedRanges := whole ▸ mem_append_right _ mem_cons_self
    have blocks := fixed_blocks placing.records fun entry inPlaced =>
      fixed entry (whole ▸ mem_append_left _ inPlaced)
    have newApart : BlocksApart totalSize
        (block handler start.handler range :: (allocatedAddrs.map Prod.snd ++ reserved)) := by
      rw [blocks]
      rw [whole, map_append, map_cons, append_assoc, cons_append] at apart
      refine (apart.perm perm_middle).sublist ?_
      exact ((sublist_append_right _ _).append_left _).cons_cons _
    rcases allocFixedRange_spec lawful totalFits key nodup placing.follows placing.held
      (fresh _ mem) newApart with ⟨scan', res, follows, held⟩ | failed
    · refine inl ⟨_, scan', res, placed ++ [(range, key)], ?_, ?_, follows, held⟩
      · rw [whole, append_assoc, singleton_append]
      · exact rel_append placing.records (List.Forall₂.cons
          ⟨rfl, rfl, aligned _ mem, fun _ => rfl⟩ List.Forall₂.nil)
    · exact inr failed

theorem placePlain_spec (lawful : handler.Lawful) (totalFits : totalSize < 2 ^ 64) (dir : Direction)
    (nodup : start.liveRanges.Nodup)
    (placing : Placing handler totalSize reserved allowSpills start placed allocatedAddrs scan)
    (plainRanges : List (LiveRange × Nat))
    (plain : ∀ entry ∈ plainRanges, handler.isFixedAlloc entry.1 = false)
    (sized : ∀ entry ∈ plainRanges, Sized handler totalSize entry.1) :
    (∃ allocatedAddrs' scan',
      placeRanges (allocPlainRange handler allowSpills dir) plainRanges allocatedAddrs scan =
        .ok (some allocatedAddrs', scan') ∧
      Placing handler totalSize reserved allowSpills start (placed ++ plainRanges)
        allocatedAddrs' scan') ∨
    ∃ scan', placeRanges (allocPlainRange handler allowSpills dir) plainRanges allocatedAddrs
        scan = .ok (none, scan') ∧
      Failed handler totalSize reserved allowSpills
        (NeverRefuses handler start ∨ plainRanges = []) start scan' := by
  have outcome := placeRanges_rule (allocPlainRange handler allowSpills dir)
    (fun rest allocatedAddrs scan => ∃ front, plainRanges = front ++ rest ∧
      Placing handler totalSize reserved allowSpills start (placed ++ front) allocatedAddrs scan)
    (Failed handler totalSize reserved allowSpills
      (NeverRefuses handler start ∨ plainRanges = []) start) ?_ plainRanges allocatedAddrs scan
    ⟨[], rfl, (append_nil placed).symm ▸ placing⟩
  · rcases outcome with ⟨allocatedAddrs', scan', res, front, whole, placing'⟩ | failed
    · rw [append_nil] at whole
      exact inl ⟨allocatedAddrs', scan', res, whole ▸ placing'⟩
    · exact inr failed
  · rintro range key rest allocatedAddrs scan ⟨front, whole, placing⟩
    have mem : (range, key) ∈ plainRanges := whole ▸ mem_append_right _ mem_cons_self
    obtain ⟨sizePositive, alignmentPositive, roomy⟩ := sized _ mem
    rcases allocPlainRange_spec lawful totalFits dir range key nodup placing.follows placing.held
      sizePositive alignmentPositive roomy with
      ⟨addr, scan', res, divides, follows, held⟩ | ⟨scan', res, failed⟩
    · refine inl ⟨_, scan', res, front ++ [(range, key)], ?_, ?_, follows, held⟩
      · rw [whole, append_assoc, singleton_append]
      · rw [← append_assoc]
        refine rel_append placing.records (List.Forall₂.cons
          ⟨rfl, rfl, divides, fun isFixed => ?_⟩ List.Forall₂.nil)
        exact absurd isFixed (eq_false_iff.mp (plain _ mem))
    · obtain ⟨leaked, kept, none⟩ := failed.held
      refine inr ⟨scan', res, failed.lost, failed.follows, leaked, kept, fun allowed => ?_⟩
      refine none (allowed.imp_left fun accepting => accepting.resolve_right fun empty => ?_)
      exact absurd (empty ▸ mem) not_mem_nil

/-! ### Making the new ranges live -/

section

variable (records : List.Forall₂ (Records handler start) placed allocatedAddrs)
  (distinct : (placed.map Prod.snd).Nodup)
include records distinct

theorem records_lookup :
    List.Forall₂ (fun entry allocated => Records handler start entry allocated ∧
      allocatedAddrs.lookup entry.2 = some allocated.2) placed allocatedAddrs := by
  induction records with
  | nil => exact List.Forall₂.nil
  | @cons entry allocated rest allocatedRest record _ ih =>
    rw [map_cons, nodup_cons] at distinct
    refine List.Forall₂.cons ⟨record, ?_⟩ ?_
    · rw [lookup_cons, ← record.key, beq_self_eq_true]
    · refine forall₂_iff_zip.mpr ⟨(ih distinct.2).length_eq, ?_⟩
      intro other block inZip
      obtain ⟨recorded, found⟩ := (forall₂_iff_zip.mp (ih distinct.2)).2 inZip
      refine ⟨recorded, ?_⟩
      have different : (other.2 == allocated.1) = false := by
        refine beq_eq_false_iff_ne.mpr fun same => distinct.1 ?_
        rw [← record.key, ← same]
        exact mem_map_of_mem (of_mem_zip inZip).1
      rw [lookup_cons, different]
      exact found

theorem lookup_of_placed {entry : LiveRange × Nat} (mem : entry ∈ placed) :
    ∃ allocated, allocatedAddrs.lookup entry.2 = some allocated.2 ∧
      Records handler start entry allocated := by
  have found := records_lookup records distinct
  obtain ⟨position, inRange, rfl⟩ := getElem_of_mem mem
  have recorded := found.get inRange (found.length_eq ▸ inRange)
  exact ⟨_, recorded.2, recorded.1⟩

theorem blocks_of_placed {state : State} (address : ∀ entry ∈ placed, ∀ addr size,
      allocatedAddrs.lookup entry.2 = some (addr, size) →
        handler.getAddress state entry.1 = addr) :
    allocatedAddrs.map Prod.snd = placed.map fun entry => block handler state entry.1 := by
  have found := records_lookup records distinct
  have same : List.Forall₂ (fun entry allocated => block handler state entry.1 = allocated.2)
      placed allocatedAddrs := by
    refine forall₂_iff_zip.mpr ⟨found.length_eq, fun {entry allocated} inZip => ?_⟩
    obtain ⟨recorded, looked⟩ := (forall₂_iff_zip.mp found).2 inZip
    exact Prod.ext (address entry (of_mem_zip inZip).1 _ _ looked) recorded.size.symm
  have mapped := forall₂_map_right_iff.mpr (forall₂_map_left_iff.mpr same)
  rw [forall₂_eq_eq_eq] at mapped
  exact mapped.symm

end

theorem publish_spec (lawful : handler.Lawful) (allocatedAddrs : AllocatedAddrs)
    (entries : List (LiveRange × Nat)) (scan : LinearScan LiveRange State)
    (distinct : (entries.map Prod.fst).Nodup)
    (known : ∀ entry ∈ entries, ∃ addr size, allocatedAddrs.lookup entry.2 = some (addr, size) ∧
      (handler.isFixedAlloc entry.1 = true → addr = handler.getAddress scan.handler entry.1)) :
    ∃ scan', publish handler allocatedAddrs entries scan = .ok scan' ∧ scan'.par = scan.par ∧
      scan'.liveRanges = scan.liveRanges ++ entries.map Prod.fst ∧
      (∀ range, range ∉ entries.map Prod.fst →
        handler.getAddress scan'.handler range = handler.getAddress scan.handler range) ∧
      ∀ entry ∈ entries, ∀ addr size, allocatedAddrs.lookup entry.2 = some (addr, size) →
        handler.getAddress scan'.handler entry.1 = addr := by
  induction entries generalizing scan with
  | nil =>
    exact ⟨scan, rfl, rfl, (append_nil _).symm, fun _ _ => rfl,
      forall_mem_nil _⟩
  | cons entry rest ih =>
    obtain ⟨newRange, key⟩ := entry
    rw [map_cons, nodup_cons] at distinct
    obtain ⟨⟨addr, size, found, fixed⟩, knownRest⟩ := forall_mem_cons.mp known
    set state := handler.allocated scan.handler newRange addr
    have address : ∀ range, range ≠ newRange →
        handler.getAddress state range = handler.getAddress scan.handler range :=
      fun range other => lawful.allocated_other _ _ _ _ other
    have own : handler.getAddress state newRange = addr := lawful.allocated_self _ _ _ fixed
    have restNe : ∀ other ∈ rest, other.1 ≠ newRange :=
      fun other mem same => distinct.1 (mem_map.mpr ⟨other, mem, same⟩)
    obtain ⟨scan', res, par, live, others, recorded⟩ := ih
      { scan with handler := state, liveRanges := scan.liveRanges ++ [newRange] } distinct.2
      fun other mem => by
        obtain ⟨addr, size, found, fixed⟩ := knownRest other mem
        exact ⟨addr, size, found, fun isFixed =>
          (fixed isFixed).trans (address _ (restNe other mem)).symm⟩
    refine ⟨scan', ?_, par, ?_, fun range absent => ?_, fun other mem addr' size' found' => ?_⟩
    · unfold publish
      rw [found]
      exact res
    · rw [live, append_assoc, map_cons, singleton_append]
    · obtain ⟨other, notIn⟩ := ne_and_not_mem_of_not_mem_cons absent
      exact (others range notIn).trans (address range other)
    · rcases mem_cons.mp mem with rfl | later
      · rw [found] at found'
        obtain ⟨rfl, rfl⟩ := Prod.mk.inj (Option.some_inj.mp found')
        exact (others _ distinct.1).trans own
      · exact recorded other later addr' size' found'

/-- When every new range was placed, making them live gives a sound state. -/
theorem Placing.publish_sound (lawful : handler.Lawful)
    (sound : Sound handler totalSize reserved start)
    (fitting : Fitting handler totalSize newLiveRanges start)
    (placing : Placing handler totalSize reserved allowSpills start placed allocatedAddrs scan)
    (all : placed.Perm newLiveRanges.zipIdx) :
    ∃ scan', publish handler allocatedAddrs newLiveRanges.zipIdx scan = .ok scan' ∧
      Sound handler totalSize reserved scan' := by
  have ranges : newLiveRanges.zipIdx.map Prod.fst = newLiveRanges := zipIdx_map_fst 0 _
  have keys : (placed.map Prod.snd).Nodup := by
    refine (all.map Prod.snd).nodup_iff.mpr ?_
    rw [zipIdx_map_snd]
    exact nodup_range'
  have looked : ∀ entry ∈ newLiveRanges.zipIdx, _ := fun entry mem =>
    lookup_of_placed placing.records keys (all.mem_iff.mpr mem)
  have notLive : ∀ range ∈ newLiveRanges, range ∉ scan.liveRanges := fun range mem live =>
    fitting.fresh range mem (placing.follows.mem_start live)
  obtain ⟨scan', res, par, live, others, recorded⟩ := publish_spec lawful allocatedAddrs
    newLiveRanges.zipIdx scan (ranges.symm ▸ fitting.nodup) fun entry mem => by
      obtain ⟨allocated, found, record⟩ := looked entry mem
      refine ⟨allocated.2.1, allocated.2.2, found, fun isFixed => ?_⟩
      rw [record.fixed isFixed]
      exact (placing.follows.address _ (inl (fitting.fresh _ (fst_mem_of_mem_zipIdx mem)))).symm
  rw [ranges] at live others
  refine ⟨scan', res, ?_, ?_, ?_⟩
  · have blocks := blocks_of_placed placing.records keys fun entry mem =>
      recorded entry (all.mem_iff.mp mem)
    have newBlocks : (allocatedAddrs.map Prod.snd).Perm
        (newLiveRanges.map (block handler scan'.handler)) := by
      rw [blocks]
      refine (all.map _).trans ?_
      conv_rhs => rw [← ranges, List.map_map]
      exact List.Perm.refl _
    have oldBlocks : scan.liveRanges.map (block handler scan'.handler) = liveBlocks handler scan :=
      map_block_congr handler fun range mem => others range fun inNew => notLive range inNew mem
    unfold Held
    rw [par]
    refine Partitions.perm placing.held ?_
    unfold liveBlocks at oldBlocks ⊢
    rw [live, map_append, oldBlocks, append_assoc]
    exact (newBlocks.append_right reserved).append_left _
  · rw [live]
    refine nodup_append.mpr ⟨placing.follows.nodup sound.nodup, fitting.nodup, ?_⟩
    exact fun range inOld other inNew same => notLive other inNew (same ▸ inOld)
  · intro range mem
    rw [live] at mem
    rcases mem_append.mp mem with inOld | inNew
    · rw [others range fun inNew => notLive range inNew inOld,
        placing.follows.address range (inr inOld)]
      exact sound.aligned range (placing.follows.mem_start inOld)
    · obtain ⟨entry, inKeyed, rfl⟩ := mem_map.mp (ranges.symm ▸ inNew)
      obtain ⟨allocated, found, record⟩ := looked entry inKeyed
      rw [recorded entry inKeyed _ _ found]
      exact record.aligned

/-! ### The whole call -/

/-- A call in a sound state meets no fault. When it succeeds, the state is sound again and the
new ranges are live behind those that were not spilled; when it fails, it is rolled back. -/
theorem alloc_spec (lawful : handler.Lawful) (totalFits : totalSize < 2 ^ 64)
    (sound : Sound handler totalSize reserved scan)
    (fitting : Fitting handler totalSize newLiveRanges scan) (allowSpills : Bool)
    (dir : Direction) :
    (∃ scan', alloc handler newLiveRanges allowSpills dir scan = .ok (true, scan') ∧
      Sound handler totalSize reserved scan') ∨
    ∃ scan', alloc handler newLiveRanges allowSpills dir scan = .ok (false, scan') ∧
      Failed handler totalSize reserved allowSpills
        (NeverRefuses handler scan ∨ ∀ range ∈ newLiveRanges, handler.isFixedAlloc range = true)
        scan scan' := by
  set keyed := newLiveRanges.zipIdx with keyedEq
  set isFixed := fun entry : LiveRange × Nat => handler.isFixedAlloc entry.1 with isFixedEq
  have inNew : ∀ entry ∈ keyed, entry.1 ∈ newLiveRanges := fun entry mem =>
    fst_mem_of_mem_zipIdx mem
  have fixedBlocks : ((keyed.filter isFixed).map fun entry => block handler scan.handler entry.1) =
      (newLiveRanges.filter handler.isFixedAlloc).map (block handler scan.handler) := by
    conv_rhs => rw [← zipIdx_map_fst 0 newLiveRanges, List.filter_map, List.map_map]
    rfl
  have fixedOf : ∀ entry ∈ keyed.filter isFixed,
      entry ∈ keyed ∧ handler.isFixedAlloc entry.1 = true :=
    fun entry mem => mem_filter.mp mem
  have plainOf : ∀ entry ∈ keyed.filter fun entry => !isFixed entry,
      entry ∈ keyed ∧ handler.isFixedAlloc entry.1 = false := by
    intro entry mem
    obtain ⟨inKeyed, plain⟩ := mem_filter.mp mem
    exact ⟨inKeyed, not_eq_true' _ ▸ plain⟩
  unfold alloc
  dsimp only
  rcases placeFixed_spec lawful totalFits allowSpills sound.nodup sound.held
    (keyed.filter isFixed) (fun entry mem => (fixedOf entry mem).2)
    (fun entry mem => fitting.fresh _ (inNew _ (fixedOf entry mem).1))
    (fun entry mem => fitting.fixedAligned _ (inNew _ (fixedOf entry mem).1)
      (fixedOf entry mem).2) (fixedBlocks ▸ fitting.apart sound.held) with
    ⟨allocatedAddrs, scan', res, placing⟩ | ⟨scan', res, failed⟩
  · rw [res]
    dsimp only
    rcases placePlain_spec lawful totalFits dir sound.nodup placing
      (keyed.filter fun entry => !isFixed entry) (fun entry mem => (plainOf entry mem).2)
      (fun entry mem => fitting.sized _ (inNew _ (plainOf entry mem).1)) with
      ⟨allocatedAddrs', scan'', result', placing'⟩ | ⟨scan'', result', failed⟩
    · rw [result']
      obtain ⟨last, published, sound'⟩ := placing'.publish_sound lawful sound fitting
        (filter_append_perm _ _)
      dsimp only
      rw [published]
      exact inl ⟨last, rfl, sound'⟩
    · rw [result']
      obtain ⟨leaked, kept, none⟩ := failed.held
      refine inr ⟨scan'', rfl, failed.lost, failed.follows, leaked, kept, fun allowed => ?_⟩
      refine none (allowed.imp_left (imp_right fun allFixed => ?_))
      refine eq_nil_iff_forall_not_mem.mpr fun entry mem => ?_
      obtain ⟨inKeyed, plain⟩ := plainOf entry mem
      exact absurd (allFixed _ (inNew _ inKeyed)) (eq_false_iff.mp plain)
  · rw [res]
    obtain ⟨leaked, kept, none⟩ := failed.held
    exact inr ⟨scan', rfl, failed.lost, failed.follows, leaked, kept,
      fun _ => none (inl trivial)⟩

end NpuPlugin.LinearScan
