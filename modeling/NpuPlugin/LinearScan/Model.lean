/-
This file models `vpux::LinearScan`: live ranges that hold blocks of a partitioned memory, the
allocation of new ranges with spilling and rollback, and the release of dead ones. The handler, a
template parameter of the source, stays a parameter: its methods act on a state of its own.
-/

import NpuPlugin.Partitioner.Runs

namespace NpuPlugin

open List Or

/-- The required methods of the handler class. `allocated`, `freed` and `spilled` are the
callbacks that change the handler; `spilled` also says whether the range could be spilled. -/
structure Handler (LiveRange State : Type) where
  isAlive : State → LiveRange → Bool
  isFixedAlloc : LiveRange → Bool
  getSize : LiveRange → Nat
  getAlignment : LiveRange → Nat
  getAddress : State → LiveRange → Nat
  allocated : State → LiveRange → Nat → State
  freed : State → LiveRange → State
  getSpillWeight : State → LiveRange → Int
  spilled : State → LiveRange → Bool × State

/-- The state of a linear scan: `_par`, `_liveRanges` and `_handler`. -/
structure LinearScan (LiveRange State : Type) where
  par : Partitioner
  liveRanges : List LiveRange
  handler : State
deriving DecidableEq, Repr

namespace LinearScan

variable {LiveRange State : Type}

/-- What ends a call without a result: stepping back from the first gap in `allocFixed`, a
missing key in `AllocatedAddrs::at`, or the check that closes `canAlloc`. -/
inductive Fault
  | steppedBeforeFirstGap
  | missingAddress
  | newGapsCreated
deriving DecidableEq, Repr

def allocFixed (scan : LinearScan LiveRange State) (addr size : Nat) :
    Except Fault (LinearScan LiveRange State) :=
  match scan.par.allocFixed addr size with
  | none => .error .steppedBeforeFirstGap
  | some par => .ok { scan with par := par }

def free (scan : LinearScan LiveRange State) (addr size : Nat) : LinearScan LiveRange State :=
  { scan with par := scan.par.free addr size }

/-- The constructor: the reserved blocks are cut out of the memory. -/
def init (totalSize : Nat) (reservedVec : List (Nat × Nat)) (handler : State) :
    Except Fault (LinearScan LiveRange State) :=
  reservedVec.foldlM (fun scan addressAndSize => scan.allocFixed addressAndSize.1 addressAndSize.2)
    ⟨.init totalSize, [], handler⟩

/-- `*it = _liveRanges.back(); _liveRanges.pop_back()`. -/
def swapRemove (ranges : List LiveRange) (position : Nat) : List LiveRange :=
  match ranges.getLast? with
  | none => []
  | some last => (ranges.set position last).dropLast

/-! ### Releasing dead ranges -/

variable (handler : Handler LiveRange State)

def freeLiveRange (scan : LinearScan LiveRange State)
    (position : Nat) (range : LiveRange) : LinearScan LiveRange State :=
  let scan := scan.free (handler.getAddress scan.handler range) (handler.getSize range)
  { scan with
    handler := handler.freed scan.handler range
    liveRanges := swapRemove scan.liveRanges position }

/-- The loop of `freeNonAlive` with `remaining` ranges still to look at: a removed range is
replaced by the last one, which is looked at next. -/
def freeNonAliveLast (handler : Handler LiveRange State) :
    Nat → LinearScan LiveRange State → LinearScan LiveRange State
  | 0, scan => scan
  | remaining + 1, scan =>
    let position := scan.liveRanges.length - (remaining + 1)
    match scan.liveRanges[position]? with
    | none => scan
    | some range =>
      if handler.isAlive scan.handler range then freeNonAliveLast handler remaining scan
      else freeNonAliveLast handler remaining (freeLiveRange handler scan position range)

def freeNonAlive (scan : LinearScan LiveRange State) : LinearScan LiveRange State :=
  freeNonAliveLast handler scan.liveRanges.length scan

/-! ### Spilling -/

/-- The position of the first range of minimal weight, as `std::min_element` finds it. -/
def minElement (weight : LiveRange → Int) (ranges : List LiveRange) : Option Nat :=
  match ranges with
  | [] => none
  | first :: rest =>
    some ((rest.zipIdx 1).foldl
      (fun smallest entry =>
        if weight entry.1 < smallest.2 then (entry.2, weight entry.1) else smallest)
      (0, weight first)).1

/-- `getSpillCandidate`: the range is taken from the live ones and its block is released. -/
def getSpillCandidate (scan : LinearScan LiveRange State) :
    Option (LiveRange × LinearScan LiveRange State) :=
  match minElement (handler.getSpillWeight scan.handler) scan.liveRanges with
  | none => none
  | some position =>
    match scan.liveRanges[position]? with
    | none => none
    | some spillCandidate =>
      let scan := scan.free (handler.getAddress scan.handler spillCandidate)
        (handler.getSize spillCandidate)
      some (spillCandidate, { scan with liveRanges := swapRemove scan.liveRanges position })

/-- `performActualSpill`: a candidate in conflict with the new block is spilled, any other one
gets its block back. -/
def performActualSpill (handler : Handler LiveRange State) (newRangeAddr newRangeSize : Nat) :
    List LiveRange → LinearScan LiveRange State →
      Except Fault (Bool × LinearScan LiveRange State)
  | [], scan => .ok (true, scan)
  | spillCandidate :: rest, scan =>
    let spilledAddr := handler.getAddress scan.handler spillCandidate
    let spilledSize := handler.getSize spillCandidate
    if Partitioner.intersects spilledAddr spilledSize newRangeAddr newRangeSize then
      let (accepted, state) := handler.spilled scan.handler spillCandidate
      if accepted then
        performActualSpill handler newRangeAddr newRangeSize rest
          { scan with handler := handler.freed state spillCandidate }
      else .ok (false, { scan with handler := state })
    else
      match scan.allocFixed spilledAddr spilledSize with
      | .error fault => .error fault
      | .ok scan =>
        performActualSpill handler newRangeAddr newRangeSize rest
          { scan with
            handler := handler.allocated scan.handler spillCandidate spilledAddr
            liveRanges := scan.liveRanges ++ [spillCandidate] }

/-- The loops of `allocFixedRange` and `allocPlainRange`: while the attempt fails, one more
range is taken as a spill candidate. Each turn takes a live range, so their number bounds the
turns. -/
def makeRoom (handler : Handler LiveRange State)
    (attempt : LinearScan LiveRange State → Option Nat × LinearScan LiveRange State)
    (allowSpills : Bool) :
    Nat → List LiveRange → LinearScan LiveRange State →
      Option Nat × List LiveRange × LinearScan LiveRange State
  | turns, spillCandidates, scan =>
    match attempt scan with
    | (some addr, scan) => (some addr, spillCandidates, scan)
    | (none, scan) =>
      if allowSpills then
        match turns, getSpillCandidate handler scan with
        | turns + 1, some (spillCandidate, scan) =>
          makeRoom handler attempt allowSpills turns (spillCandidates ++ [spillCandidate]) scan
        | _, _ => (none, spillCandidates, scan)
      else (none, spillCandidates, scan)

/-! ### Allocation -/

/-- The blocks allocated so far, by the position of their range among the new ones. -/
abbrev AllocatedAddrs := List (Nat × Nat × Nat)

def rollback (allocatedAddrs : AllocatedAddrs) (scan : LinearScan LiveRange State) :
    LinearScan LiveRange State :=
  allocatedAddrs.foldl
    (fun scan entry => if entry.2.1 = InvalidAddress then scan else scan.free entry.2.1 entry.2.2)
    scan

/-- The `canAlloc` of `allocFixedRange`: the block is apart from the live ones. -/
def apartFromLive (addr size : Nat) (scan : LinearScan LiveRange State) : Bool :=
  scan.liveRanges.all fun prevRange =>
    !Partitioner.intersects addr size (handler.getAddress scan.handler prevRange)
      (handler.getSize prevRange)

/-- What `allocFixedRange` and `allocPlainRange` return: the state, and the blocks allocated
so far when the range could be placed. -/
abbrev Placed (LiveRange State : Type) :=
  Except Fault (Option AllocatedAddrs × LinearScan LiveRange State)

/-- The turn of the loop of `allocFixedRange`. -/
def attemptFixed (addr size : Nat)
    (scan : LinearScan LiveRange State) : Option Nat × LinearScan LiveRange State :=
  (if apartFromLive handler addr size scan then some addr else none, scan)

/-- The turn of the loop of `allocPlainRange`. -/
def attemptPlain (size alignment : Nat) (dir : Direction) (scan : LinearScan LiveRange State) :
    Option Nat × LinearScan LiveRange State :=
  let (addr, par) := scan.par.alloc size alignment dir
  (if addr = InvalidAddress then none else some addr, { scan with par := par })

def allocFixedRange (allowSpills : Bool)
    (newRange : LiveRange) (key : Nat) (allocatedAddrs : AllocatedAddrs)
    (scan : LinearScan LiveRange State) : Placed LiveRange State :=
  let newRangeAddr := handler.getAddress scan.handler newRange
  let newRangeSize := handler.getSize newRange
  match makeRoom handler (attemptFixed handler newRangeAddr newRangeSize) allowSpills
      scan.liveRanges.length [] scan with
  | (none, _, scan) => .ok (none, rollback allocatedAddrs scan)
  | (some _, spillCandidates, scan) =>
    match performActualSpill handler newRangeAddr newRangeSize spillCandidates scan with
    | .error fault => .error fault
    | .ok (false, scan) => .ok (none, rollback allocatedAddrs scan)
    | .ok (true, scan) =>
      match scan.allocFixed newRangeAddr newRangeSize with
      | .error fault => .error fault
      | .ok scan => .ok (some (allocatedAddrs ++ [(key, newRangeAddr, newRangeSize)]), scan)

def allocPlainRange (allowSpills : Bool) (dir : Direction)
    (newRange : LiveRange) (key : Nat) (allocatedAddrs : AllocatedAddrs)
    (scan : LinearScan LiveRange State) : Placed LiveRange State :=
  let newRangeSize := handler.getSize newRange
  let newRangeAlignment := handler.getAlignment newRange
  match makeRoom handler (attemptPlain newRangeSize newRangeAlignment dir) allowSpills
      scan.liveRanges.length [] scan with
  | (none, _, scan) => .ok (none, rollback allocatedAddrs scan)
  | (some newRangeAddr, spillCandidates, scan) =>
    match performActualSpill handler newRangeAddr newRangeSize spillCandidates scan with
    | .error fault => .error fault
    | .ok (false, scan) => .ok (none, rollback allocatedAddrs scan)
    | .ok (true, scan) => .ok (some (allocatedAddrs ++ [(key, newRangeAddr, newRangeSize)]), scan)

/-- The two loops of `alloc` that place ranges: those the filter leaves, in order, until one
cannot be placed. -/
def placeRanges
    (place : LiveRange → Nat → AllocatedAddrs → LinearScan LiveRange State →
      Placed LiveRange State) :
    List (LiveRange × Nat) → AllocatedAddrs → LinearScan LiveRange State →
      Placed LiveRange State
  | [], allocatedAddrs, scan => .ok (some allocatedAddrs, scan)
  | (newRange, key) :: rest, allocatedAddrs, scan =>
    match place newRange key allocatedAddrs scan with
    | .ok (some allocatedAddrs, scan) => placeRanges place rest allocatedAddrs scan
    | failed => failed

/-- The last loop of `alloc`: the new ranges become live. -/
def publish (handler : Handler LiveRange State) (allocatedAddrs : AllocatedAddrs) :
    List (LiveRange × Nat) → LinearScan LiveRange State →
      Except Fault (LinearScan LiveRange State)
  | [], scan => .ok scan
  | (newRange, key) :: rest, scan =>
    match allocatedAddrs.lookup key with
    | none => .error .missingAddress
    | some (addr, _) =>
      publish handler allocatedAddrs rest
        { scan with
          handler := handler.allocated scan.handler newRange addr
          liveRanges := scan.liveRanges ++ [newRange] }

def alloc (newLiveRanges : List LiveRange) (allowSpills : Bool) (dir : Direction)
    (scan : LinearScan LiveRange State) : Except Fault (Bool × LinearScan LiveRange State) :=
  let keyed := newLiveRanges.zipIdx
  match placeRanges (allocFixedRange handler allowSpills)
      (keyed.filter fun entry => handler.isFixedAlloc entry.1) [] scan with
  | .error fault => .error fault
  | .ok (none, scan) => .ok (false, scan)
  | .ok (some allocatedAddrs, scan) =>
    match placeRanges (allocPlainRange handler allowSpills dir)
        (keyed.filter fun entry => !handler.isFixedAlloc entry.1) allocatedAddrs scan with
    | .error fault => .error fault
    | .ok (none, scan) => .ok (false, scan)
    | .ok (some allocatedAddrs, scan) =>
      match publish handler allocatedAddrs keyed scan with
      | .error fault => .error fault
      | .ok scan => .ok (true, scan)

/-! ### Trying an allocation -/

/-- The temporary allocations of `canAlloc`, up to the first that fails. -/
def tempAlloc (handler : Handler LiveRange State) (dir : Direction) :
    List LiveRange → Partitioner → List (Nat × Nat) → Bool × List (Nat × Nat) × Partitioner
  | [], par, temp => (true, temp, par)
  | newRange :: rest, par, temp =>
    let (allocAddr, par) := par.alloc (handler.getSize newRange) (handler.getAlignment newRange) dir
    if allocAddr = InvalidAddress then (false, temp, par)
    else tempAlloc handler dir rest par (temp ++ [(allocAddr, handler.getSize newRange)])

def canAlloc (newLiveRanges : List LiveRange)
    (dir : Direction) (scan : LinearScan LiveRange State) :
    Except Fault (Bool × LinearScan LiveRange State) :=
  let (canAllocAll, temp, par) := tempAlloc handler dir newLiveRanges scan.par []
  let par := temp.foldl (fun par block => par.free block.1 block.2) par
  if scan.par.gaps.length = par.gaps.length then .ok (canAllocAll, { scan with par := par })
  else .error .newGapsCreated

end LinearScan

/-! ### Spilling -/

/-- What a handler promises about addresses: `allocated` records the address of its range, where
a fixed range only takes its own, and no callback changes the address of another range. -/
structure Handler.Lawful {LiveRange State : Type} (handler : Handler LiveRange State) :
    Prop where
  allocated_self : ∀ state range addr,
    (handler.isFixedAlloc range = true → addr = handler.getAddress state range) →
      handler.getAddress (handler.allocated state range addr) range = addr
  allocated_other : ∀ state range addr other, other ≠ range →
    handler.getAddress (handler.allocated state range addr) other =
      handler.getAddress state other
  freed_other : ∀ state range other, other ≠ range →
    handler.getAddress (handler.freed state range) other = handler.getAddress state other
  spilled_other : ∀ state range other, other ≠ range →
    handler.getAddress (handler.spilled state range).2 other = handler.getAddress state other

namespace LinearScan

open Partitioner

variable {LiveRange State : Type} (handler : Handler LiveRange State)

def block (state : State) (range : LiveRange) : Nat × Nat :=
  (handler.getAddress state range, handler.getSize range)

def liveBlocks (scan : LinearScan LiveRange State) : List (Nat × Nat) :=
  scan.liveRanges.map (block handler scan.handler)

/-- The live ranges and the other held blocks partition the memory. -/
def Held (totalSize : Nat) (others : List (Nat × Nat)) (scan : LinearScan LiveRange State) : Prop :=
  Partitions totalSize ⟨scan.par, liveBlocks handler scan ++ others⟩

theorem map_block_congr (handler : Handler LiveRange State) {ranges : List LiveRange}
    {state state' : State}
    (same : ∀ range ∈ ranges, handler.getAddress state' range = handler.getAddress state range) :
    ranges.map (block handler state') = ranges.map (block handler state) :=
  map_congr_left fun range mem => congrArg (·, _) (same range mem)

/-! ### Taking one range out -/

theorem swapRemove_perm {ranges : List LiveRange} {position : Nat} {range : LiveRange}
    (found : ranges[position]? = some range) :
    ranges.Perm (range :: swapRemove ranges position) := by
  obtain ⟨inRange, atPosition⟩ := List.getElem?_eq_some_iff.mp found
  rcases eq_nil_or_concat ranges with rfl | ⟨front, last, whole⟩
  · exact absurd inRange (Nat.not_lt_zero _)
  rw [concat_eq_append] at whole
  subst whole
  unfold swapRemove
  rw [getLast?_concat]
  dsimp only
  rw [length_append, length_singleton] at inRange
  rcases Nat.lt_succ_iff_lt_or_eq.mp inRange with inFront | atEnd
  · rw [getElem_append_left inFront] at atPosition
    rw [set_append_left _ _ inFront, dropLast_concat, set_eq_take_append_cons_drop, if_pos inFront]
    have split : front = front.take position ++ range :: front.drop (position + 1) := by
      rw [← atPosition, getElem_cons_drop, take_append_drop]
    calc front ++ [last]
        = front.take position ++ range :: (front.drop (position + 1) ++ [last]) := by
          conv_lhs => rw [split]
          rw [append_assoc, cons_append]
      _ |>.Perm (range :: (front.take position ++ (front.drop (position + 1) ++ [last]))) :=
          perm_middle
      _ |>.Perm (range :: (front.take position ++ last :: front.drop (position + 1))) :=
          ((perm_append_singleton _ _).append_left _).cons _
  · subst atEnd
    rw [getElem_append_right le_rfl] at atPosition
    simp only [Nat.sub_self, getElem_cons_zero] at atPosition
    rw [set_append_right _ _ le_rfl, Nat.sub_self, set_cons_zero, dropLast_concat, ← atPosition]
    exact perm_append_singleton _ _

variable {others : List (Nat × Nat)} {scan : LinearScan LiveRange State}

theorem Held.remove {handler : Handler LiveRange State} {totalSize : Nat}
    (totalFits : totalSize < 2 ^ 64) (held : Held handler totalSize others scan)
    {range : LiveRange} {rest : List LiveRange} (removed : scan.liveRanges.Perm (range :: rest)) :
    Held handler totalSize others
      { scan.free (handler.getAddress scan.handler range) (handler.getSize range) with
        liveRanges := rest } := by
  have reordered : (liveBlocks handler scan ++ others).Perm
      (block handler scan.handler range ::
        (rest.map (block handler scan.handler) ++ others)) := by
    exact (removed.map _).append_right others
  exact (Partitions.perm held reordered).release_head totalFits

/-! ### Releasing dead ranges -/

/-- What a release of dead ranges leaves: some of the live ranges, where they were. -/
structure Remains (totalSize : Nat)
    (others : List (Nat × Nat)) (scan scan' : LinearScan LiveRange State) : Prop where
  held : Held handler totalSize others scan'
  live : ∃ gone, scan.liveRanges.Perm (gone ++ scan'.liveRanges)
  address : ∀ range ∈ scan'.liveRanges,
    handler.getAddress scan'.handler range = handler.getAddress scan.handler range

variable {handler : Handler LiveRange State} {totalSize : Nat} {others : List (Nat × Nat)}
  {first second third : LinearScan LiveRange State}

theorem Remains.trans (left : Remains handler totalSize others first second)
    (right : Remains handler totalSize others second third) :
    Remains handler totalSize others first third := by
  obtain ⟨gone, split⟩ := left.live
  obtain ⟨gone', split'⟩ := right.live
  refine ⟨right.held, ⟨gone ++ gone', ?_⟩, fun range mem => ?_⟩
  · rw [append_assoc]
    exact split.trans (split'.append_left gone)
  · exact (right.address range mem).trans
      (left.address range (split'.mem_iff.mpr (mem_append_right _ mem)))

theorem freeLiveRange_remains (lawful : handler.Lawful) (totalFits : totalSize < 2 ^ 64)
    (held : Held handler totalSize others scan) (nodup : scan.liveRanges.Nodup) {position : Nat}
    {range : LiveRange} (found : scan.liveRanges[position]? = some range) :
    Remains handler totalSize others scan (freeLiveRange handler scan position range) := by
  have removed := swapRemove_perm found
  have apart := (nodup_cons.mp (removed.nodup_iff.mp nodup)).1
  have address : ∀ other ∈ swapRemove scan.liveRanges position,
      handler.getAddress (handler.freed scan.handler range) other =
        handler.getAddress scan.handler other :=
    fun other mem => lawful.freed_other _ _ _ fun same => apart (same ▸ mem)
  refine ⟨?_, ⟨[range], removed⟩, address⟩
  have kept : Partitions totalSize ⟨scan.par.free _ _, _ ++ others⟩ := held.remove totalFits removed
  unfold Held liveBlocks
  rw [show (freeLiveRange handler scan position range).liveRanges.map
      (block handler (freeLiveRange handler scan position range).handler) =
    (swapRemove scan.liveRanges position).map (block handler scan.handler) from
      map_block_congr handler address]
  exact kept

theorem freeNonAliveLast_remains (lawful : handler.Lawful) (totalFits : totalSize < 2 ^ 64)
    (remaining : Nat) (scan : LinearScan LiveRange State)
    (held : Held handler totalSize others scan) (nodup : scan.liveRanges.Nodup) :
    Remains handler totalSize others scan (freeNonAliveLast handler remaining scan) := by
  have unchanged : Remains handler totalSize others scan scan :=
    ⟨held, ⟨[], List.Perm.refl _⟩, fun _ _ => rfl⟩
  induction remaining generalizing scan with
  | zero => exact unchanged
  | succ remaining ih =>
    unfold freeNonAliveLast
    dsimp only
    split
    · exact unchanged
    · rename_i range found
      split
      · exact ih scan held nodup unchanged
      · have step := freeLiveRange_remains lawful totalFits held nodup found
        have fewer := ((swapRemove_perm found).nodup_iff.mp nodup).of_cons
        exact step.trans (ih _ step.held fewer ⟨step.held, ⟨[], List.Perm.refl _⟩, fun _ _ => rfl⟩)

/-! ### Spill candidates -/

theorem minElement_lt (weight : LiveRange → Int) {ranges : List LiveRange}
    (nonempty : ranges ≠ []) :
    ∃ position, minElement weight ranges = some position ∧ position < ranges.length := by
  cases ranges with
  | nil => exact absurd rfl nonempty
  | cons first rest =>
    refine ⟨_, rfl, ?_⟩
    refine foldlRecOn
      (motive := fun smallest : Nat × Int => smallest.1 < (first :: rest).length) _ _
      (Nat.succ_pos _) fun smallest start entry mem => ?_
    have inRange := snd_lt_of_mem_zipIdx mem
    rw [length_cons]
    split
    · omega
    · exact start

/-- The spill candidates taken so far, and the scan without them. -/
structure Taken (handler : Handler LiveRange State) (totalSize : Nat)
    (others : List (Nat × Nat)) (scan : LinearScan LiveRange State) (taken : List LiveRange)
    (last : LinearScan LiveRange State) : Prop where
  held : Held handler totalSize others last
  live : scan.liveRanges.Perm (taken ++ last.liveRanges)
  handler_eq : last.handler = scan.handler
  unchanged : taken = [] → last = scan

theorem getSpillCandidate_spec (totalFits : totalSize < 2 ^ 64)
    (held : Held handler totalSize others scan) (nonempty : scan.liveRanges ≠ []) :
    ∃ spillCandidate scan', getSpillCandidate handler scan = some (spillCandidate, scan') ∧
      Taken handler totalSize others scan [spillCandidate] scan' := by
  obtain ⟨position, chosen, inRange⟩ := minElement_lt (handler.getSpillWeight scan.handler) nonempty
  have found := getElem?_eq_getElem inRange
  have removed := swapRemove_perm found
  refine ⟨_, _, ?_, held.remove totalFits removed, removed, rfl, fun empty => ?_⟩
  · unfold getSpillCandidate
    rw [chosen]
    dsimp only
    rw [found]
    rfl
  · exact absurd empty (cons_ne_nil _ _)

variable {spillCandidate : LiveRange}

theorem Taken.cons {handler : Handler LiveRange State} {totalSize : Nat}
    {taken : List LiveRange} (left : Taken handler totalSize others first [spillCandidate] second)
    (right : Taken handler totalSize others second taken third) :
    Taken handler totalSize others first (spillCandidate :: taken) third :=
  ⟨right.held, left.live.trans (right.live.cons _), right.handler_eq.trans left.handler_eq,
    fun empty => absurd empty (cons_ne_nil _ _)⟩

/-- The loop that makes room ends at a scan where the attempt succeeds, or at one where it
fails: then no candidate was taken, or none is left. -/
theorem makeRoom_spec (totalFits : totalSize < 2 ^ 64)
    (attempt : LinearScan LiveRange State → Option Nat × LinearScan LiveRange State)
    (failing : ∀ scan, Held handler totalSize others scan → (attempt scan).1 = none →
      (attempt scan).2 = scan) (allowSpills : Bool) (turns : Nat) (spillCandidates : List LiveRange)
    (scan : LinearScan LiveRange State) (held : Held handler totalSize others scan)
    (enough : turns = scan.liveRanges.length) :
    ∃ taken last, Taken handler totalSize others scan taken last ∧
      (allowSpills = false → taken = []) ∧
      ((∃ addr scan', attempt last = (some addr, scan') ∧
          makeRoom handler attempt allowSpills turns spillCandidates scan =
            (some addr, spillCandidates ++ taken, scan')) ∨
        ((allowSpills = true → last.liveRanges = []) ∧
          makeRoom handler attempt allowSpills turns spillCandidates scan =
            (none, spillCandidates ++ taken, last))) := by
  have start : Taken handler totalSize others scan [] scan :=
    ⟨held, List.Perm.refl _, rfl, fun _ => rfl⟩
  induction turns generalizing spillCandidates scan with
  | zero =>
    refine ⟨[], scan, start, fun _ => rfl, ?_⟩
    have empty : scan.liveRanges = [] := eq_nil_of_length_eq_zero enough.symm
    unfold makeRoom
    cases res : attempt scan with
    | mk found scan' =>
      cases found with
      | some addr => exact inl ⟨addr, scan', rfl, by rw [append_nil]⟩
      | none =>
        refine inr ⟨fun _ => empty, ?_⟩
        have same : scan' = scan := by
          have := failing scan held (by rw [res])
          rwa [res] at this
        rw [append_nil, same]
        dsimp only
        split
        · rfl
        · rfl
  | succ turns ih =>
    unfold makeRoom
    cases res : attempt scan with
    | mk found scan' =>
      cases found with
      | some addr =>
        exact ⟨[], scan, start, fun _ => rfl, inl ⟨addr, scan', res, by
          rw [append_nil]⟩⟩
      | none =>
        have same : scan' = scan := by
          have := failing scan held (by rw [res])
          rwa [res] at this
        subst same
        dsimp only
        cases allowSpills with
        | false =>
          exact ⟨[], scan', start, fun _ => rfl, inr ⟨fun no => by simp at no, by
            rw [append_nil]; rfl⟩⟩
        | true =>
          have nonempty : scan'.liveRanges ≠ [] := by
            intro empty
            rw [empty] at enough
            exact Nat.succ_ne_zero _ enough
          obtain ⟨spillCandidate, next, chosen, step⟩ :=
            getSpillCandidate_spec totalFits held nonempty
          have fewer : turns = next.liveRanges.length := by
            have lengths := step.live.length_eq
            rw [length_append, length_singleton, ← enough] at lengths
            omega
          obtain ⟨taken, last, chain, _, outcome⟩ := ih
            (spillCandidates ++ [spillCandidate]) next step.held fewer
            ⟨step.held, List.Perm.refl _, rfl, fun _ => rfl⟩
          refine ⟨spillCandidate :: taken, last, step.cons chain, fun no => by simp at no, ?_⟩
          rw [if_pos rfl, chosen]
          rw [append_assoc, singleton_append] at outcome
          exact outcome

/-! ### The actual spill -/

/-- The candidates that keep their blocks when the new block is placed. -/
def keepsBlock (places : LiveRange → Nat × Nat) (addr size : Nat) (range : LiveRange) : Bool :=
  !intersects (places range).1 (places range).2 addr size

/-- What the actual spill leaves: the candidates that keep their blocks are live again, and no
other range moved. -/
structure Spilled (handler : Handler LiveRange State) (totalSize : Nat)
    (others : List (Nat × Nat)) (keeps : LiveRange → Bool) (taken : List LiveRange)
    (scan : LinearScan LiveRange State) (kept : List LiveRange)
    (scan' : LinearScan LiveRange State) : Prop where
  held : Held handler totalSize others scan'
  live : scan'.liveRanges = scan.liveRanges ++ kept
  sublist : kept.Sublist (taken.filter keeps)
  address : ∀ range, range ∉ taken ∨ range ∈ kept →
    handler.getAddress scan'.handler range = handler.getAddress scan.handler range
  unchanged : taken = [] → scan' = scan

/-- One more candidate in front: `first` is the candidate when it got its block back. -/
theorem Spilled.cons {handler : Handler LiveRange State} {totalSize : Nat}
    {keeps : LiveRange → Bool} {rest first kept : List LiveRange}
    {next scan' : LinearScan LiveRange State}
    (spilled : Spilled handler totalSize others keeps rest next kept scan')
    (notRest : spillCandidate ∉ rest) (own : ∀ range ∈ first, range = spillCandidate)
    (live : next.liveRanges = scan.liveRanges ++ first)
    (filtered : (spillCandidate :: rest).filter keeps = first ++ rest.filter keeps)
    (address : ∀ range, range ≠ spillCandidate ∨ range ∈ first →
      handler.getAddress next.handler range = handler.getAddress scan.handler range) :
    Spilled handler totalSize others keeps (spillCandidate :: rest) scan (first ++ kept)
      scan' := by
  refine ⟨spilled.held, ?_, ?_, ?_, fun empty => absurd empty (cons_ne_nil _ _)⟩
  · rw [spilled.live, live, append_assoc]
  · rw [filtered]
    exact spilled.sublist.append_left first
  · rintro range (absent | mem)
    · obtain ⟨other, notIn⟩ := ne_and_not_mem_of_not_mem_cons absent
      exact (spilled.address range (inl notIn)).trans (address range (inl other))
    · rcases mem_append.mp mem with inFirst | inKept
      · have notIn : range ∉ rest := own range inFirst ▸ notRest
        exact (spilled.address range (inl notIn)).trans (address range (inr inFirst))
      · have inRest := (mem_filter.mp (spilled.sublist.subset inKept)).1
        exact (spilled.address range (inr inKept)).trans
          (address range (inl fun same => notRest (same ▸ inRest)))

variable {scan : LinearScan LiveRange State} {state : State}

theorem Held.with_handler (held : Held handler totalSize others scan)
    (same : ∀ range ∈ scan.liveRanges,
      handler.getAddress state range = handler.getAddress scan.handler range) :
    Held handler totalSize others { scan with handler := state } := by
  unfold Held liveBlocks
  rw [map_block_congr handler same]
  exact held

theorem Held.allocFixed_ok (totalFits : totalSize < 2 ^ 64)
    (held : Held handler totalSize others scan) {addr size : Nat}
    (apart : BlocksApart totalSize ((addr, size) :: (liveBlocks handler scan ++ others))) :
    ∃ par', scan.allocFixed addr size = .ok { scan with par := par' } ∧
      Partitions totalSize ⟨par', (addr, size) :: (liveBlocks handler scan ++ others)⟩ := by
  obtain ⟨par', taken, partitions⟩ := Partitions.allocFixed_head totalFits held apart
  refine ⟨par', ?_, partitions⟩
  unfold allocFixed
  rw [taken]

theorem Held.restore {par : Partitioner} (partitions : Partitions totalSize
      ⟨par, block handler state spillCandidate :: (liveBlocks handler scan ++ others)⟩)
    (same : ∀ range ∈ scan.liveRanges,
      handler.getAddress state range = handler.getAddress scan.handler range) :
    Held handler totalSize others
      { par := par, liveRanges := scan.liveRanges ++ [spillCandidate], handler := state } := by
  refine partitions.perm ?_
  unfold liveBlocks
  rw [map_append, map_singleton, map_block_congr handler same, ← cons_append]
  exact (perm_append_singleton _ _).symm.append_right others

/-- The actual spill reaches no fault. It is refused when the handler cannot spill one of the
candidates, which is then lost. -/
theorem performActualSpill_spec (lawful : handler.Lawful) (totalFits : totalSize < 2 ^ 64)
    (places : LiveRange → Nat × Nat) (addr size : Nat) (taken : List LiveRange)
    (scan : LinearScan LiveRange State) (held : Held handler totalSize others scan)
    (placed : ∀ range ∈ taken ++ scan.liveRanges, block handler scan.handler range = places range)
    (apart : BlocksApart totalSize
      ((taken.filter (keepsBlock places addr size) ++ scan.liveRanges).map places ++ others))
    (nodup : (taken ++ scan.liveRanges).Nodup) :
    ∃ accepted kept scan', performActualSpill handler addr size taken scan =
        .ok (accepted, scan') ∧
      Spilled handler totalSize others (keepsBlock places addr size) taken scan kept scan' ∧
      (accepted = false → ∃ range ∈ taken, range ∉ kept ∧
        ∃ state, (handler.spilled state range).1 = false) := by
  induction taken generalizing scan with
  | nil =>
    exact ⟨true, [], scan, rfl, ⟨held, (append_nil _).symm, List.Sublist.refl _,
      fun _ _ => rfl, fun _ => rfl⟩, fun no => by simp at no⟩
  | cons spillCandidate rest ih =>
    have atHead : block handler scan.handler spillCandidate = places spillCandidate :=
      placed _ (mem_append_left _ mem_cons_self)
    obtain ⟨notAfter, nodupRest⟩ := nodup_cons.mp nodup
    have notRest : spillCandidate ∉ rest := fun mem => notAfter (mem_append_left _ mem)
    have headAddress : handler.getAddress scan.handler spillCandidate =
        (places spillCandidate).1 := congrArg Prod.fst atHead
    have headSize : handler.getSize spillCandidate = (places spillCandidate).2 :=
      congrArg Prod.snd atHead
    have restNe : ∀ range ∈ rest ++ scan.liveRanges, range ≠ spillCandidate :=
      fun range mem same => notAfter (same ▸ mem)
    have liveNe : ∀ range ∈ scan.liveRanges, range ≠ spillCandidate :=
      (forall_mem_append.mp restNe).2
    unfold performActualSpill
    dsimp only
    rw [headAddress, headSize]
    cases conflict : intersects (places spillCandidate).1 (places spillCandidate).2 addr size with
    | true =>
      have dropped : (spillCandidate :: rest).filter (keepsBlock places addr size) =
          rest.filter (keepsBlock places addr size) :=
        filter_cons_of_neg (by rw [keepsBlock, conflict]; decide)
      rw [if_pos rfl]
      cases accepted : (handler.spilled scan.handler spillCandidate).1 with
      | false =>
        rw [if_neg (by decide)]
        have address : ∀ range, range ≠ spillCandidate →
            handler.getAddress (handler.spilled scan.handler spillCandidate).2 range =
              handler.getAddress scan.handler range :=
          fun range other => lawful.spilled_other _ _ _ other
        refine ⟨false, [], _, rfl, ⟨held.with_handler fun range mem =>
          address range (liveNe range mem), (append_nil _).symm, nil_sublist _, ?_,
          fun empty => absurd empty (cons_ne_nil _ _)⟩,
          fun _ => ⟨spillCandidate, mem_cons_self, not_mem_nil, _, accepted⟩⟩
        rintro range (absent | mem)
        · exact address range fun same => absent (same ▸ mem_cons_self)
        · exact absurd mem not_mem_nil
      | true =>
        rw [if_pos rfl]
        set state := handler.freed (handler.spilled scan.handler spillCandidate).2 spillCandidate
        have address : ∀ range, range ≠ spillCandidate →
            handler.getAddress state range = handler.getAddress scan.handler range :=
          fun range other => (lawful.freed_other _ _ _ other).trans
            (lawful.spilled_other _ _ _ other)
        obtain ⟨accepted, kept, scan', res, spilled, refused⟩ := ih
          { scan with handler := state }
          (held.with_handler fun range mem => address range (liveNe range mem))
          (fun range mem => (congrArg (·, _) (address range (restNe range mem))).trans
            (placed range (mem_cons_of_mem _ mem))) (dropped ▸ apart) nodupRest
        refine ⟨accepted, kept, scan', res, ?_, fun no => ?_⟩
        · have none : ∀ range ∈ ([] : List LiveRange), range = spillCandidate :=
            forall_mem_nil _
          refine spilled.cons notRest none (append_nil _).symm dropped ?_
          rintro range (other | mem)
          · exact address range other
          · exact absurd mem not_mem_nil
        · obtain ⟨range, mem, lost, state, refuses⟩ := refused no
          exact ⟨range, mem_cons_of_mem _ mem, lost, state, refuses⟩
    | false =>
      have keeps : (spillCandidate :: rest).filter (keepsBlock places addr size) =
          [spillCandidate] ++ rest.filter (keepsBlock places addr size) :=
        filter_cons_of_pos (by rw [keepsBlock, conflict]; decide)
      rw [keeps] at apart
      rw [if_neg (by decide)]
      have blocksEq : liveBlocks handler scan = scan.liveRanges.map places :=
        map_congr_left fun range mem => placed range (mem_cons_of_mem _ (mem_append_right _ mem))
      have headApart : BlocksApart totalSize
          (((places spillCandidate).1, (places spillCandidate).2) ::
            (liveBlocks handler scan ++ others)) := by
        rw [blocksEq]
        refine apart.sublist ?_
        rw [append_assoc, singleton_append, map_cons, cons_append, map_append, append_assoc]
        exact (sublist_append_right _ _).cons_cons _
      obtain ⟨par', restored, partitions⟩ := held.allocFixed_ok totalFits headApart
      rw [restored]
      set state := handler.allocated scan.handler spillCandidate (places spillCandidate).1
      have address : ∀ range, range ≠ spillCandidate →
          handler.getAddress state range = handler.getAddress scan.handler range :=
        fun range other => lawful.allocated_other _ _ _ _ other
      have own : handler.getAddress state spillCandidate = (places spillCandidate).1 :=
        lawful.allocated_self _ _ _ fun _ => headAddress.symm
      have inPlace : ∀ range ∈ spillCandidate :: rest ++ scan.liveRanges,
          block handler state range = places range := by
        intro range mem
        rcases mem_cons.mp mem with rfl | later
        · exact Prod.ext own headSize
        · exact (congrArg (·, _) (address range (restNe range later))).trans (placed range mem)
      have live : Held handler totalSize others
          { par := par', liveRanges := scan.liveRanges ++ [spillCandidate], handler := state } := by
        refine Held.restore ?_ fun range mem => address range (liveNe range mem)
        rw [inPlace spillCandidate mem_cons_self]
        exact partitions
      have moved : ∀ front : List LiveRange, (front ++ (scan.liveRanges ++ [spillCandidate])).Perm
          (spillCandidate :: front ++ scan.liveRanges) := by
        intro front
        rw [← append_assoc]
        exact perm_append_singleton _ _
      obtain ⟨accepted, kept, scan', res, spilled, refused⟩ := ih
        { par := par', liveRanges := scan.liveRanges ++ [spillCandidate], handler := state } live
        (fun range mem => inPlace range ((moved rest).mem_iff.mp mem))
        (apart.perm (((moved _).symm.map places).append_right others))
        ((moved rest).nodup_iff.mpr nodup)
      refine ⟨accepted, [spillCandidate] ++ kept, scan', res, ?_, fun no => ?_⟩
      · refine spilled.cons notRest (fun _ mem => mem_singleton.mp mem) rfl keeps ?_
        rintro range (other | mem)
        · exact address range other
        · rw [mem_singleton.mp mem, own, headAddress]
      · obtain ⟨range, mem, lost, state, refuses⟩ := refused no
        refine ⟨range, mem_cons_of_mem _ mem, ?_, state, refuses⟩
        exact not_mem_cons_of_ne_of_not_mem
          (restNe range (mem_append_left _ mem)) lost

end LinearScan

end NpuPlugin
