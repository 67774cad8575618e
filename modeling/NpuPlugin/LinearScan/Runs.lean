/-
This file follows a linear scan through any sequence of its calls: the live ranges and the reserved
blocks are exactly what is missing from the gap list as long as no spill of a plain range is
refused.
-/

import NpuPlugin.LinearScan.Allocation

namespace NpuPlugin.LinearScan

open Bool Except Intervals List Or Partitioner

variable {LiveRange State : Type}

/-! ### The other calls -/

variable {totalSize : Nat} {handler : Handler LiveRange State}

theorem init_spec (handler : Handler LiveRange State) (pos : 0 < totalSize)
    (totalFits : totalSize < 2 ^ 64) {reservedVec : List (Nat × Nat)}
    (apart : BlocksApart totalSize reservedVec) (state : State) :
    ∃ scan, init totalSize reservedVec state = .ok scan ∧
      Sound handler totalSize reservedVec scan := by
  have cut : ∀ (rest done : List (Nat × Nat)) (scan : LinearScan LiveRange State),
      scan.liveRanges = [] → Partitions totalSize ⟨scan.par, done⟩ →
      BlocksApart totalSize (rest ++ done) →
      ∃ scan', rest.foldlM (fun scan block => allocFixed scan block.1 block.2) scan = .ok scan' ∧
        scan'.liveRanges = [] ∧ Partitions totalSize ⟨scan'.par, rest ++ done⟩ := by
    intro rest
    induction rest with
    | nil => exact fun done scan empty partitions _ => ⟨scan, rfl, empty, partitions⟩
    | cons block rest ih =>
      intro done scan empty partitions apart
      have moved : (block :: (rest ++ done)).Perm (rest ++ block :: done) := perm_middle.symm
      have headApart : BlocksApart totalSize ((block.1, block.2) :: done) :=
        apart.sublist ((sublist_append_right rest done).cons_cons block)
      obtain ⟨par', taken, partitions'⟩ := Partitions.allocFixed_head totalFits partitions headApart
      obtain ⟨scan', res, empty', last⟩ := ih (block :: done)
        { scan with par := par' } empty partitions' (apart.perm moved)
      refine ⟨scan', ?_, empty', last.perm moved.symm⟩
      have first : allocFixed scan block.1 block.2 = .ok { scan with par := par' } := by
        unfold allocFixed
        rw [taken]
      rw [foldlM_cons, first]
      exact res
  obtain ⟨scan, res, empty, partitions⟩ := cut reservedVec [] ⟨.init totalSize, [], state⟩ rfl
    (partitions_init totalSize pos) ((append_nil reservedVec).symm ▸ apart)
  rw [append_nil] at partitions
  refine ⟨scan, res, ?_, ?_, ?_⟩
  · unfold Held liveBlocks
    rw [empty]
    exact partitions
  · rw [empty]
    exact nodup_nil
  · rw [empty]
    exact forall_mem_nil _

variable {handler : Handler LiveRange State} {others : List (Nat × Nat)}
  {scan : LinearScan LiveRange State}

theorem Sound.freeNonAlive (lawful : handler.Lawful) {totalSize : Nat}
    (totalFits : totalSize < 2 ^ 64) (sound : Sound handler totalSize others scan) :
    Sound handler totalSize others (freeNonAlive handler scan) := by
  have remains := freeNonAliveLast_remains lawful totalFits scan.liveRanges.length scan
    sound.held sound.nodup
  obtain ⟨gone, split⟩ := remains.live
  refine ⟨remains.held, (nodup_append.mp (split.nodup_iff.mp sound.nodup)).2.1,
    fun range mem => ?_⟩
  have address := remains.address range mem
  unfold LinearScan.freeNonAlive
  rw [address]
  exact sound.aligned range (split.mem_iff.mpr (mem_append_right _ mem))

theorem tempAlloc_spec (dir : Direction) {blocks : List (Nat × Nat)}
    (newLiveRanges : List LiveRange)
    (sized : ∀ range ∈ newLiveRanges, Sized handler totalSize range) (par : Partitioner)
    (temp : List (Nat × Nat)) (partitions : Partitions totalSize ⟨par, temp ++ blocks⟩) :
    ∃ all temp' par', tempAlloc handler dir newLiveRanges par temp = (all, temp', par') ∧
      Partitions totalSize ⟨par', temp' ++ blocks⟩ := by
  induction newLiveRanges generalizing par temp with
  | nil => exact ⟨true, temp, par, rfl, partitions⟩
  | cons range rest ih =>
    obtain ⟨⟨sizePositive, alignmentPositive, roomy⟩, sizedRest⟩ := forall_mem_cons.mp sized
    unfold tempAlloc
    rcases partitions.alloc_head sizePositive alignmentPositive roomy dir with
      failed | ⟨addr, par', res, valid, _, partitions'⟩
    · rw [failed]
      exact ⟨false, temp, par, if_pos rfl, partitions⟩
    · rw [res]
      dsimp only
      rw [if_neg valid]
      refine ih sizedRest par' _ (partitions'.perm ?_)
      rw [append_assoc, singleton_append]
      exact perm_middle.symm

/-- `canAlloc` releases what it took: it leaves the state as it was, and its own check never
fails. -/
theorem canAlloc_spec (totalFits : totalSize < 2 ^ 64) (held : Held handler totalSize others scan)
    {newLiveRanges : List LiveRange}
    (sized : ∀ range ∈ newLiveRanges, Sized handler totalSize range) (dir : Direction) :
    ∃ all, canAlloc handler newLiveRanges dir scan = .ok (all, scan) := by
  obtain ⟨all, temp, par, res, partitions⟩ :=
    tempAlloc_spec dir newLiveRanges sized scan.par [] held
  have same : temp.foldl (fun par block => par.free block.1 block.2) par = scan.par :=
    Partitions.par_eq (partitions.release_all totalFits) held .rfl
  refine ⟨all, ?_⟩
  unfold canAlloc
  rw [res]
  dsimp only
  rw [same, if_pos rfl]

/-! ### Runs -/

/-- The calls of a client. Between them the client may change the handler, as when it marks a
range as dead. -/
inductive Step (LiveRange State : Type)
  | alloc (newLiveRanges : List LiveRange) (allowSpills : Bool) (dir : Direction)
  | freeNonAlive
  | canAlloc (newLiveRanges : List LiveRange) (dir : Direction)
  | client (state : State)

def perform (handler : Handler LiveRange State) (scan : LinearScan LiveRange State) :
    Step LiveRange State → Except Fault (LinearScan LiveRange State)
  | .alloc newLiveRanges allowSpills dir =>
    (alloc handler newLiveRanges allowSpills dir scan).map Prod.snd
  | .freeNonAlive => .ok (freeNonAlive handler scan)
  | .canAlloc newLiveRanges dir => (canAlloc handler newLiveRanges dir scan).map Prod.snd
  | .client state => .ok { scan with handler := state }

/-- What a client may ask for. The client does not move live ranges. -/
def Permitted (handler : Handler LiveRange State) (totalSize : Nat)
    (scan : LinearScan LiveRange State) : Step LiveRange State → Prop
  | .alloc newLiveRanges _ _ => Fitting handler totalSize newLiveRanges scan
  | .freeNonAlive => True
  | .canAlloc newLiveRanges _ => ∀ range ∈ newLiveRanges, Sized handler totalSize range
  | .client state => ∀ range ∈ scan.liveRanges,
      handler.getAddress state range = handler.getAddress scan.handler range

/-- A call that asks for a plain range with spills finds a handler that can spill every live
range. -/
def SpillsAccepted (handler : Handler LiveRange State) (scan : LinearScan LiveRange State) :
    Step LiveRange State → Prop
  | .alloc newLiveRanges allowSpills _ => allowSpills = true →
      NeverRefuses handler scan ∨ ∀ range ∈ newLiveRanges, handler.isFixedAlloc range = true
  | _ => True

/-- The states a run reaches whose calls all meet the condition. -/
inductive Reachable (handler : Handler LiveRange State) (totalSize : Nat)
    (reserved : List (Nat × Nat))
    (condition : LinearScan LiveRange State → Step LiveRange State → Prop) :
    LinearScan LiveRange State → Prop
  | init {scan : LinearScan LiveRange State} (state : State)
      (built : init totalSize reserved state = .ok scan) :
      Reachable handler totalSize reserved condition scan
  | step {scan scan' : LinearScan LiveRange State} (step : Step LiveRange State)
      (reached : Reachable handler totalSize reserved condition scan)
      (meets : condition scan step) (performed : perform handler scan step = .ok scan') :
      Reachable handler totalSize reserved condition scan'

/-- One permitted call meets no fault. It leaves a sound state, where a block may have leaked
only by a refused spill. -/
theorem Sound.step (lawful : handler.Lawful)
    {totalSize : Nat} (totalFits : totalSize < 2 ^ 64) (sound : Sound handler totalSize others scan)
    (step : Step LiveRange State) (permitted : Permitted handler totalSize scan step) :
    ∃ scan' leaked, perform handler scan step = .ok scan' ∧
      Sound handler totalSize (leaked ++ others) scan' ∧
      (SpillsAccepted handler scan step → leaked = []) := by
  cases step with
  | alloc newLiveRanges allowSpills dir =>
    rcases alloc_spec lawful totalFits sound permitted allowSpills dir with
      ⟨scan', res, sound'⟩ | ⟨scan', res, failed⟩
    · exact ⟨scan', [], by rw [perform, res]; rfl, sound', fun _ => rfl⟩
    · obtain ⟨leaked, held, none⟩ := failed.held
      refine ⟨scan', leaked, by rw [perform, res]; rfl, ⟨held, failed.follows.nodup sound.nodup,
        fun range mem => ?_⟩, fun accepted => none ?_⟩
      · rw [failed.follows.address range (inr mem)]
        exact sound.aligned range (failed.follows.mem_start mem)
      · cases allowSpills with
        | false => exact inr (inl rfl)
        | true => exact inl (accepted rfl)
  | freeNonAlive => exact ⟨_, [], rfl, sound.freeNonAlive lawful totalFits, fun _ => rfl⟩
  | canAlloc newLiveRanges dir =>
    obtain ⟨all, res⟩ := canAlloc_spec totalFits sound.held permitted dir
    exact ⟨scan, [], by rw [perform, res]; rfl, sound, fun _ => rfl⟩
  | client state =>
    refine ⟨_, [], rfl, ⟨sound.held.with_handler permitted, sound.nodup, fun range mem => ?_⟩,
      fun _ => rfl⟩
    rw [permitted range mem]
    exact sound.aligned range mem

/-- Every state reached by permitted calls is sound up to leaked blocks, and nothing leaks in a
run where every spill is accepted. -/
theorem Reachable.sound (lawful : handler.Lawful)
    {totalSize : Nat} (pos : 0 < totalSize) (totalFits : totalSize < 2 ^ 64)
    {reserved : List (Nat × Nat)} (apart : BlocksApart totalSize reserved)
    {condition : LinearScan LiveRange State → Step LiveRange State → Prop}
    (permitted : ∀ scan step, condition scan step → Permitted handler totalSize scan step)
    (reached : Reachable handler totalSize reserved condition scan) :
    ∃ leaked, Sound handler totalSize (leaked ++ reserved) scan ∧
      ((∀ scan step, condition scan step → SpillsAccepted handler scan step) → leaked = []) := by
  induction reached with
  | init state built =>
    obtain ⟨scan, res, sound⟩ := init_spec handler pos totalFits apart state
    rw [built] at res
    obtain rfl := ok.inj res
    exact ⟨[], sound, fun _ => rfl⟩
  | step step _ meets performed ih =>
    obtain ⟨leaked, sound, none⟩ := ih
    obtain ⟨scan', leaked', res, sound', none'⟩ :=
      sound.step lawful totalFits step (permitted _ _ meets)
    rw [performed] at res
    obtain rfl := ok.inj res
    refine ⟨leaked' ++ leaked, ?_, fun accepted => ?_⟩
    · rw [append_assoc]
      exact sound'
    · rw [none accepted, none' (accepted _ _ meets), append_nil]

/-- The blocks of the live ranges and the reserved blocks are apart, the live ranges aligned,
all lie in the memory, and together they are the complement of the gap list. -/
structure Consistent (handler : Handler LiveRange State) (totalSize : Nat)
    (reserved : List (Nat × Nat)) (scan : LinearScan LiveRange State) : Prop where
  apart : (liveBlocks handler scan ++ reserved).Pairwise fun first second =>
    ∀ point, InBlock first.1 first.2 point → ¬ InBlock second.1 second.2 point
  aligned : ∀ range ∈ scan.liveRanges,
    handler.getAlignment range ∣ handler.getAddress scan.handler range
  inside : ∀ block ∈ liveBlocks handler scan ++ reserved, block.1 + block.2 ≤ totalSize
  complement : ∀ point, Covers scan.par.gaps point ↔
    point < totalSize ∧ ∀ block ∈ liveBlocks handler scan ++ reserved,
      ¬ InBlock block.1 block.2 point

theorem Sound.consistent {reserved : List (Nat × Nat)}
    (sound : Sound handler totalSize reserved scan) : Consistent handler totalSize reserved scan :=
  ⟨sound.held.apart, sound.aligned, sound.held.bounded, sound.held.covers_iff⟩

/-- Nothing a client can observe of the memory and of the live ranges changed. -/
structure Unchanged (handler : Handler LiveRange State)
    (scan scan' : LinearScan LiveRange State) : Prop where
  gaps : scan'.par.gaps = scan.par.gaps
  live : ∀ range, range ∈ scan'.liveRanges ↔ range ∈ scan.liveRanges
  address : ∀ range ∈ scan.liveRanges,
    handler.getAddress scan'.handler range = handler.getAddress scan.handler range

/-! ### A handler of tensors -/

/-- A range of the unit tests of the source, with a flag for whether it can be spilled. -/
structure Tensor where
  name : Nat
  size : Nat
  fixed : Bool
  spillable : Bool
deriving DecidableEq, Repr

/-- The handler keeps the addresses given out last. -/
def tensorHandler : Handler Tensor (List (Tensor × Nat)) where
  isAlive _ _ := true
  isFixedAlloc range := range.fixed
  getSize range := range.size
  getAlignment _ := 1
  getAddress state range := (state.lookup range).getD InvalidAddress
  allocated state range addr := (range, addr) :: state
  freed state _ := state
  getSpillWeight _ _ := 0
  spilled state range := (range.spillable, state)

theorem tensorHandler_lawful : tensorHandler.Lawful := by
  refine ⟨fun state range addr _ => ?_, fun state range addr other different => ?_,
    fun _ _ _ _ => rfl, fun _ _ _ _ => rfl⟩
  · dsimp only [tensorHandler]
    rw [lookup_cons_self, Option.getD_some]
  · dsimp only [tensorHandler]
    rw [lookup_cons, beq_eq_false_iff_ne.mpr different]

theorem fitting_plain (totalSize : Nat) (roomy : totalSize < 2 ^ 64) (range : Tensor)
    (plain : range.fixed = false) (pos : 0 < range.size)
    (scan : LinearScan Tensor (List (Tensor × Nat))) (fresh : range ∉ scan.liveRanges) :
    Fitting tensorHandler totalSize [range] scan := by
  have none : [range].filter tensorHandler.isFixedAlloc = [] :=
    filter_eq_nil_iff.mpr fun other mem => by
      rw [mem_singleton.mp mem]
      exact eq_false_iff.mp plain
  have notFixed : ∀ other ∈ [range], tensorHandler.isFixedAlloc other ≠ true := fun other mem =>
    mem_singleton.mp mem ▸ eq_false_iff.mp plain
  refine ⟨pairwise_singleton _ _, fun other mem => mem_singleton.mp mem ▸ fresh,
    fun other mem => mem_singleton.mp mem ▸ ⟨pos, Nat.one_pos, roomy⟩,
    fun other mem isFixed => absurd isFixed (notFixed other mem), ?_,
    fun other mem isFixed => absurd isFixed (notFixed other mem)⟩
  rw [none]
  exact ⟨forall_mem_nil _, forall_mem_nil _, List.Pairwise.nil⟩

theorem reachable_one_live
    (condition : LinearScan Tensor (List (Tensor × Nat)) → Step Tensor (List (Tensor × Nat)) → Prop)
    (range : Tensor) (meets : condition ⟨.init 4, [], []⟩ (.alloc [range] false .up))
    {scan : LinearScan Tensor (List (Tensor × Nat))}
    (performed : perform tensorHandler ⟨.init 4, [], []⟩ (.alloc [range] false .up) = .ok scan) :
    Reachable tensorHandler 4 [] condition scan :=
  .step _ (.init [] rfl) meets performed

/-! ### The results -/

/-- In every state of a run whose calls are permitted and meet no refused spill of a plain
range, the live ranges and the reserved blocks are pairwise disjoint, aligned and inside the
memory, and are exactly the complement of the gap list; every such call ends without a fault. -/
theorem reachable_consistent (handler : Handler LiveRange State) (lawful : handler.Lawful)
    (totalSize : Nat) (pos : 0 < totalSize) (totalFits : totalSize < 2 ^ 64)
    (reserved : List (Nat × Nat)) (reservedApart : BlocksApart totalSize reserved)
    (scan : LinearScan LiveRange State)
    (reached : Reachable handler totalSize reserved (fun scan step =>
      Permitted handler totalSize scan step ∧ SpillsAccepted handler scan step) scan) :
    Consistent handler totalSize reserved scan ∧
      ∀ step, Permitted handler totalSize scan step →
        ∃ scan', perform handler scan step = .ok scan' := by
  obtain ⟨leaked, sound, none⟩ := reached.sound lawful pos totalFits reservedApart
    fun _ _ both => both.1
  obtain rfl := none fun _ _ both => both.2
  refine ⟨sound.consistent, fun step permitted => ?_⟩
  obtain ⟨scan', _, performed, _⟩ := sound.step lawful totalFits step permitted
  exact ⟨scan', performed⟩

theorem reachable_consistent_one :
    Consistent tensorHandler 4 []
      ⟨⟨[⟨2, 4⟩], 4⟩, [⟨1, 2, false, true⟩], [(⟨1, 2, false, true⟩, 0)]⟩ :=
  (reachable_consistent tensorHandler tensorHandler_lawful 4 (by decide) (by decide) []
    ⟨forall_mem_nil _, forall_mem_nil _, List.Pairwise.nil⟩ _
    (reachable_one_live _ ⟨1, 2, false, true⟩
      ⟨fitting_plain 4 (by decide) _ rfl (by decide) _ not_mem_nil,
        fun no => absurd no false_ne_true⟩ (by decide +kernel))).1

/-- A range that cannot be spilled fills the memory, and the block of the range it was taken
out for stays allocated when the call fails: no range holds the addresses below 2, and they
are not free. -/
theorem refused_spill_leaks :
    Reachable tensorHandler 4 [] (Permitted tensorHandler 4)
      ⟨⟨[⟨2, 4⟩], 4⟩, [], [(⟨1, 4, false, false⟩, 0)]⟩ ∧
    ¬ Consistent tensorHandler 4 [] ⟨⟨[⟨2, 4⟩], 4⟩, [], [(⟨1, 4, false, false⟩, 0)]⟩ := by
  have full : Reachable tensorHandler 4 [] (Permitted tensorHandler 4)
      ⟨⟨[], 4⟩, [⟨1, 4, false, false⟩], [(⟨1, 4, false, false⟩, 0)]⟩ :=
    reachable_one_live _ ⟨1, 4, false, false⟩
      (fitting_plain 4 (by decide) _ rfl (by decide) _ not_mem_nil) (by decide +kernel)
  constructor
  · exact .step (.alloc [⟨2, 2, false, true⟩] true .up) full
      (fitting_plain 4 (by decide) _ rfl (by decide) _ (by decide)) (by decide +kernel)
  · intro consistent
    have free := (consistent.complement 0).mpr
      ⟨by decide, forall_mem_nil _⟩
    obtain ⟨gap, mem, inside⟩ := free
    rw [mem_singleton.mp mem] at inside
    exact absurd inside.1 (by decide)

/-- A failed call of `alloc` leaves the gap list, the live ranges and their addresses as they
were exactly when spills are not allowed or nothing was live. -/
theorem alloc_failed_unchanged_iff (handler : Handler LiveRange State) (lawful : handler.Lawful)
    (totalSize : Nat) (pos : 0 < totalSize) (totalFits : totalSize < 2 ^ 64)
    (reserved : List (Nat × Nat)) (reservedApart : BlocksApart totalSize reserved)
    (scan scan' : LinearScan LiveRange State)
    (reached : Reachable handler totalSize reserved (Permitted handler totalSize) scan)
    (newLiveRanges : List LiveRange) (fitting : Fitting handler totalSize newLiveRanges scan)
    (allowSpills : Bool) (dir : Direction)
    (returnsFalse : alloc handler newLiveRanges allowSpills dir scan = .ok (false, scan')) :
    Unchanged handler scan scan' ↔ allowSpills = false ∨ scan.liveRanges = [] := by
  obtain ⟨leaked, sound, _⟩ := reached.sound lawful pos totalFits reservedApart
    fun _ _ permitted => permitted
  have failed : Failed handler totalSize (leaked ++ reserved) allowSpills
      (NeverRefuses handler scan ∨ ∀ range ∈ newLiveRanges, handler.isFixedAlloc range = true)
      scan scan' := by
    rcases alloc_spec lawful totalFits sound fitting allowSpills dir with
      ⟨other, res, _⟩ | ⟨other, res, failed⟩
    · rw [returnsFalse] at res
      exact absurd (congrArg Prod.fst (ok.inj res)) false_ne_true
    · rw [returnsFalse] at res
      obtain rfl : scan' = other := congrArg Prod.snd (ok.inj res)
      exact failed
  constructor
  · intro unchanged
    by_contra quiet
    obtain ⟨spills, nonempty⟩ := not_or.mp quiet
    obtain ⟨range, mem, gone⟩ := failed.lost (eq_true_of_not_eq_false spills) nonempty
    exact gone ((unchanged.live range).mpr mem)
  · intro quiet
    obtain ⟨live, state⟩ := failed.follows.untouched quiet
    obtain ⟨leaked', held, none⟩ := failed.held
    obtain rfl := none (inr quiet)
    have par : scan'.par = scan.par := by
      refine Partitions.par_eq held sound.held ?_
      unfold liveBlocks
      rw [live, state]
      exact List.Perm.refl _
    refine ⟨by rw [par], fun range => by rw [live], fun range _ => by rw [state]⟩

/-- Without spills, a range that does not fit leaves everything as it was. -/
theorem alloc_failed_unchanged_full :
    Unchanged tensorHandler
      ⟨⟨[], 4⟩, [⟨1, 4, false, true⟩], [(⟨1, 4, false, true⟩, 0)]⟩
      ⟨⟨[], 4⟩, [⟨1, 4, false, true⟩], [(⟨1, 4, false, true⟩, 0)]⟩ :=
  (alloc_failed_unchanged_iff tensorHandler tensorHandler_lawful 4 (by decide) (by decide) []
    ⟨forall_mem_nil _, forall_mem_nil _, List.Pairwise.nil⟩ _ _
    (reachable_one_live _ ⟨1, 4, false, true⟩
      (fitting_plain 4 (by decide) _ rfl (by decide) _ not_mem_nil) (by decide +kernel))
    [⟨2, 2, false, true⟩] (fitting_plain 4 (by decide) _ rfl (by decide) _ (by decide))
    false .up
    (by decide +kernel)).mpr (inl rfl)

/-- With spills, a range larger than the memory takes the live range out before the call
fails. -/
theorem failed_alloc_drops_live :
    Reachable tensorHandler 4 [] (Permitted tensorHandler 4)
      ⟨⟨[⟨2, 4⟩], 4⟩, [⟨1, 2, false, true⟩], [(⟨1, 2, false, true⟩, 0)]⟩ ∧
    Fitting tensorHandler 4 [⟨2, 8, false, true⟩]
      ⟨⟨[⟨2, 4⟩], 4⟩, [⟨1, 2, false, true⟩], [(⟨1, 2, false, true⟩, 0)]⟩ ∧
    alloc tensorHandler [⟨2, 8, false, true⟩] true .up
      ⟨⟨[⟨2, 4⟩], 4⟩, [⟨1, 2, false, true⟩], [(⟨1, 2, false, true⟩, 0)]⟩ =
        .ok (false, ⟨⟨[⟨0, 4⟩], 4⟩, [], [(⟨1, 2, false, true⟩, 0)]⟩) ∧
    ¬ Unchanged tensorHandler
      ⟨⟨[⟨2, 4⟩], 4⟩, [⟨1, 2, false, true⟩], [(⟨1, 2, false, true⟩, 0)]⟩
      ⟨⟨[⟨0, 4⟩], 4⟩, [], [(⟨1, 2, false, true⟩, 0)]⟩ := by
  refine ⟨reachable_one_live _ ⟨1, 2, false, true⟩
      (fitting_plain 4 (by decide) _ rfl (by decide) _ not_mem_nil) (by decide +kernel),
    fitting_plain 4 (by decide) _ rfl (by decide) _ (by decide), by decide +kernel,
    fun unchanged => ?_⟩
  exact absurd ((unchanged.live _).mpr (mem_singleton_self _)) not_mem_nil

/-! ### The check before an allocation -/

/-- Without spills a plain range is placed where the partitioner finds room, as in the check. -/
theorem allocPlainRange_false (dir : Direction) (range : LiveRange) (key : Nat)
    (allocatedAddrs : AllocatedAddrs) (scan : LinearScan LiveRange State) :
    allocPlainRange handler false dir range key allocatedAddrs scan =
      let (addr, par) := scan.par.alloc (handler.getSize range) (handler.getAlignment range) dir
      if addr = InvalidAddress then .ok (none, rollback allocatedAddrs { scan with par := par })
      else .ok (some (allocatedAddrs ++ [(key, addr, handler.getSize range)]),
        { scan with par := par }) := by
  unfold allocPlainRange makeRoom attemptPlain
  dsimp only
  by_cases failed :
      (scan.par.alloc (handler.getSize range) (handler.getAlignment range) dir).1 = InvalidAddress
  · rw [if_pos failed, if_pos failed]
    rfl
  · rw [if_neg failed, if_neg failed]
    rfl

theorem placeRanges_tempAlloc (handler : Handler LiveRange State) (dir : Direction)
    (entries : List (LiveRange × Nat)) (allocatedAddrs : AllocatedAddrs)
    (scan : LinearScan LiveRange State) (temp : List (Nat × Nat)) :
    ∃ placed after, placeRanges (allocPlainRange handler false dir) entries allocatedAddrs scan =
        .ok (placed, after) ∧
      ((tempAlloc handler dir (entries.map Prod.fst) scan.par temp).1 = true ↔
        placed.isSome = true) ∧
      ∀ allocated, placed = some allocated →
        allocated.map Prod.fst = allocatedAddrs.map Prod.fst ++ entries.map Prod.snd := by
  induction entries generalizing allocatedAddrs scan temp with
  | nil => exact ⟨_, _, rfl, iff_of_true rfl rfl, by simp⟩
  | cons entry rest ih =>
    unfold placeRanges tempAlloc
    rw [map_cons, allocPlainRange_false]
    dsimp only
    by_cases failed : (scan.par.alloc (handler.getSize entry.1) (handler.getAlignment entry.1)
        dir).1 = InvalidAddress
    · rw [if_pos failed, if_pos failed]
      exact ⟨none, _, rfl, by simp, fun _ no => by cases no⟩
    · rw [if_neg failed, if_neg failed]
      obtain ⟨placed, after, res, same, keys⟩ := ih (allocatedAddrs ++ [_]) { scan with par := _ } _
      refine ⟨placed, after, res, same, fun allocated some => (keys allocated some).trans ?_⟩
      rw [map_append, append_assoc]
      rfl

theorem publish_ok (handler : Handler LiveRange State) {allocatedAddrs : AllocatedAddrs}
    (entries : List (LiveRange × Nat)) (scan : LinearScan LiveRange State)
    (keys : ∀ key ∈ entries.map Prod.snd, key ∈ allocatedAddrs.map Prod.fst) :
    ∃ after, publish handler allocatedAddrs entries scan = .ok after := by
  induction entries generalizing scan with
  | nil => exact ⟨scan, rfl⟩
  | cons entry rest ih =>
    obtain ⟨here, later⟩ := forall_mem_cons.mp keys
    unfold publish
    split
    · next missing =>
      obtain ⟨pair, mem, same⟩ := mem_map.mp here
      exact absurd (lookup_eq_none_iff.mp missing pair mem) (by simp [same])
    · exact ih _ later

/-- The check leaves the state as it was, and it says whether the allocation of the same ranges
without spills that follows succeeds. -/
theorem canAlloc_iff_alloc (handler : Handler LiveRange State) (lawful : handler.Lawful)
    (totalSize : Nat) (pos : 0 < totalSize) (totalFits : totalSize < 2 ^ 64)
    (reserved : List (Nat × Nat)) (reservedApart : BlocksApart totalSize reserved)
    (scan : LinearScan LiveRange State)
    (reached : Reachable handler totalSize reserved (Permitted handler totalSize) scan)
    (newLiveRanges : List LiveRange)
    (plain : ∀ range ∈ newLiveRanges, handler.isFixedAlloc range = false)
    (sized : ∀ range ∈ newLiveRanges, Sized handler totalSize range) (dir : Direction) :
    ∃ all, canAlloc handler newLiveRanges dir scan = .ok (all, scan) ∧
      (all = true ↔ ∃ after, alloc handler newLiveRanges false dir scan = .ok (true, after)) := by
  obtain ⟨leaked, sound, _⟩ := reached.sound lawful pos totalFits reservedApart
    fun _ _ permitted => permitted
  obtain ⟨all, checked⟩ := canAlloc_spec totalFits sound.held sized dir
  have isAll : all = (tempAlloc handler dir newLiveRanges scan.par []).1 := by
    unfold canAlloc at checked
    dsimp only at checked
    split at checked
    · exact (congrArg Prod.fst (ok.inj checked)).symm
    · cases checked
  obtain ⟨placed, after, res, same, keys⟩ :=
    placeRanges_tempAlloc handler dir newLiveRanges.zipIdx [] scan []
  have noneFixed : newLiveRanges.zipIdx.filter (fun entry => handler.isFixedAlloc entry.1) = [] :=
    filter_eq_nil_iff.mpr fun entry mem =>
      eq_false_iff.mp (plain entry.1 (fst_mem_of_mem_zipIdx mem))
  have allPlain : newLiveRanges.zipIdx.filter (fun entry => !handler.isFixedAlloc entry.1) =
      newLiveRanges.zipIdx := filter_eq_self.mpr fun entry mem => by
    rw [plain entry.1 (fst_mem_of_mem_zipIdx mem)]
    rfl
  rw [zipIdx_map_fst, ← isAll] at same
  refine ⟨all, checked, same.trans ?_⟩
  unfold alloc
  dsimp only
  rw [noneFixed, allPlain, placeRanges]
  dsimp only
  rw [res]
  cases placed with
  | none => exact iff_of_false (by simp) fun ⟨_, no⟩ => by cases no
  | some allocated =>
    obtain ⟨last, published⟩ := publish_ok handler newLiveRanges.zipIdx after
      fun key mem => by rwa [keys allocated rfl]
    dsimp only
    rw [published]
    exact iff_of_true rfl ⟨last, rfl⟩

theorem canAlloc_iff_alloc_one : ∃ scan all,
    canAlloc tensorHandler [⟨2, 2, false, true⟩] .up scan = .ok (all, scan) ∧ (all = true ↔
      ∃ after, alloc tensorHandler [⟨2, 2, false, true⟩] false .up scan = .ok (true, after)) :=
  ⟨⟨⟨[⟨2, 4⟩], 4⟩, [⟨1, 2, false, true⟩], [(⟨1, 2, false, true⟩, 0)]⟩,
    canAlloc_iff_alloc tensorHandler tensorHandler_lawful 4 (by decide) (by decide) []
      ⟨forall_mem_nil _, forall_mem_nil _, List.Pairwise.nil⟩ _
      (reachable_one_live _ ⟨1, 2, false, true⟩
        (fitting_plain 4 (by decide) _ rfl (by decide) _ not_mem_nil) (by decide +kernel))
      [⟨2, 2, false, true⟩] (by decide)
      (fitting_plain 4 (by decide) ⟨2, 2, false, true⟩ rfl (by decide) ⟨.init 4, [], []⟩
        not_mem_nil).sized .up⟩

end NpuPlugin.LinearScan
