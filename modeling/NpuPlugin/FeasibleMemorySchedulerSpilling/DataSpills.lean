/-
This file proves that the optimisation of the spills of data operations and the removal of redundant
spill writes keep a schedule meaningful: what is used is loaded, and what is read back was written.
-/

import Mathlib.Tactic.IntervalCases
import NpuPlugin.FeasibleMemorySchedulerSpilling.SpillTree

namespace NpuPlugin.FeasibleMemorySchedulerSpilling

open Bool FeasibleMemoryScheduler List Nat

/-! ### Loads and evictions -/

/-- The entry puts data in the buffer: an `ORIGINAL` that writes it, or a spill read of it. -/
def LoadsBuffer (info : ScheduledOpInfo) (buffer : Buffer) : Prop :=
  (info.isOriginalOp = true ∨ isSpillRead info = true) ∧
    ∃ resource ∈ info.outputResourceInfo, resource.buffer = buffer

/-- The entry saves the buffer and frees its place. -/
def EvictsBuffer (info : ScheduledOpInfo) (buffer : Buffer) : Prop :=
  info.isSpillWrite = true ∧ spilledBuffer info = some buffer

/-- After the given entries the buffer is loaded: an entry loaded it and none evicted it since. -/
def IsLoaded (front : List ScheduledOpInfo) (buffer : Buffer) : Prop :=
  ∃ before load between, front = before ++ load :: between ∧ LoadsBuffer load buffer ∧
    ∀ info ∈ between, ¬ EvictsBuffer info buffer

/-- Every operation finds the buffers loaded that it uses. -/
def UsesLoaded (uses : Nat → Buffer → Prop) (entries : List ScheduledOpInfo) : Prop :=
  ∀ front info rest buffer, entries = front ++ info :: rest → info.isOriginalOp = true →
    uses info.op buffer → IsLoaded front buffer

/-- After the given entries the buffer has what the operation wrote last. -/
def IsLastWriter (front : List ScheduledOpInfo) (buffer : Buffer) (op : Nat) : Prop :=
  ∃ before load between, front = before ++ load :: between ∧ LoadsBuffer load buffer ∧
    load.op = op ∧ ∀ info ∈ between, ¬ LoadsBuffer info buffer

/-- A spill write has the index of the operation that wrote the buffer last. -/
def WritesOfLastWriter (entries : List ScheduledOpInfo) : Prop :=
  ∀ front info rest buffer, entries = front ++ info :: rest → EvictsBuffer info buffer →
    IsLastWriter front buffer info.op

/-- A spill read stands behind a spill write of its operation and its buffer. -/
def ReadsWritten (entries : List ScheduledOpInfo) : Prop :=
  ∀ front info rest buffer, entries = front ++ info :: rest → isSpillRead info = true →
    spilledBuffer info = some buffer → ∃ before spillWrite between,
      front = before ++ spillWrite :: between ∧ EvictsBuffer spillWrite buffer ∧
        spillWrite.op = info.op

/-- A data operation whose load reaches a use. -/
def Feeds (uses : Nat → Buffer → Prop) (entries : List ScheduledOpInfo) (op : Nat) : Prop :=
  ∃ before load between user rest buffer,
    entries = (before ++ load :: between) ++ user :: rest ∧ isEntryOf op load = true ∧
      LoadsBuffer load buffer ∧ (∀ info ∈ between, ¬ EvictsBuffer info buffer) ∧
      user.isOriginalOp = true ∧ uses user.op buffer

/-- One `ORIGINAL` comes first, then come spills only. -/
def StartsWithOriginal (chain : List ScheduledOpInfo) : Prop :=
  ∃ original rest, chain = original :: rest ∧ original.isOriginalOp = true ∧
    ∀ info ∈ rest, info.isOriginalOp = false

/-- A schedule with spills of data operations. The entries of a data operation are an `ORIGINAL`,
then spill writes and spill reads in turn, and those of one with a single result are about one
buffer. What an operation uses, in a way that the optimisation can see, is loaded, and data
operations use no such buffer. What is read back was written, by the last writer of the buffer. -/
structure DataSchedule (context : Context) (uses : Nat → Buffer → Prop) (dataBuffer : Nat → Buffer)
    (scheduledOps : List ScheduledOpInfo) : Prop where
  chains : DataChains scheduledOps
  loads : ∀ info ∈ scheduledOps, info.isDataOp = true → HasSingleResult context info.op →
    info.isSpillWrite = false →
      info.outputResourceInfo.map IntervalInfo.buffer = [dataBuffer info.op]
  evicts : ∀ info ∈ scheduledOps, info.isDataOp = true → HasSingleResult context info.op →
    info.isSpillWrite = true → spilledBuffer info = some (dataBuffer info.op)
  seen : ∀ op buffer, uses op buffer → UsesBuffer context op buffer
  users : ∀ info ∈ scheduledOps, info.isDataOp = true → ∀ buffer, ¬ uses info.op buffer
  loaded : UsesLoaded uses scheduledOps
  written : ReadsWritten scheduledOps
  writers : WritesOfLastWriter scheduledOps

/-! ### What promotion leaves -/

variable {info : ScheduledOpInfo}

theorem not_loadsBuffer_of_isSpillWrite {buffer : Buffer}
    (isWrite : info.isSpillWrite = true) : ¬ LoadsBuffer info buffer := by
  rintro ⟨isOriginal | isRead, -⟩
  · rw [not_isSpillWrite_of_isOriginalOp isOriginal] at isWrite
    exact absurd isWrite (by simp)
  · rw [not_isSpillWrite_of_isSpillRead isRead] at isWrite
    exact absurd isWrite (by simp)

namespace Promoted

variable {info after : ScheduledOpInfo} {buffer : Buffer}

section

variable (promoted : Promoted info after)
include promoted

theorem loadsBuffer_iff : LoadsBuffer after buffer ↔ LoadsBuffer info buffer := by
  rcases promoted with rfl | ⟨-, isRead, isOriginal, same⟩
  · rfl
  · have outputs : after.outputResourceInfo = info.outputResourceInfo := by rw [same]
    rw [LoadsBuffer, LoadsBuffer, outputs, isRead, isOriginal]
    simp

theorem eq_of_isSpillWrite (isWrite : after.isSpillWrite = true) : after = info := by
  rcases promoted with same | ⟨-, -, isOriginal, -⟩
  · exact same
  · rw [not_isSpillWrite_of_isOriginalOp isOriginal] at isWrite
    exact absurd isWrite (by simp)

theorem eq_of_isSpillRead (isRead : isSpillRead after = true) : after = info := by
  rcases promoted with same | ⟨-, -, isOriginal, -⟩
  · exact same
  · rw [not_isSpillRead_of_isOriginalOp isOriginal] at isRead
    exact absurd isRead (by simp)

theorem evictsBuffer (evicts : EvictsBuffer after buffer) : EvictsBuffer info buffer :=
  promoted.eq_of_isSpillWrite evicts.1 ▸ evicts

end

end Promoted

/-! ### Loads that are removed -/

section Removed

variable {context : Context} {uses : Nat → Buffer → Prop} {dataBuffer : Nat → Buffer}
  {scheduledOps : List ScheduledOpInfo} {removed : List Nat}
  {before between rest : List ScheduledOpInfo} {load user : ScheduledOpInfo} {place : Nat}
  {buffer : Buffer}

/-- All places that are removed are those of pairs. -/
def RemovedInPairs (context : Context) (scheduledOps : List ScheduledOpInfo)
    (removed : List Nat) : Prop :=
  ∀ place ∈ removed, ∃ op idx next, (place = idx ∨ place = next) ∧
    RemovedPair context scheduledOps removed op idx next

theorem getElem?_of_split {front rest : List ScheduledOpInfo}
    (split : scheduledOps = front ++ info :: rest) : scheduledOps[front.length]? = some info := by
  rw [split, getElem?_append_right le_rfl, Nat.sub_self]
  rfl

theorem mem_between (stands : ((before ++ load :: between) ++ user :: rest)[place]? = some info)
    (above : before.length < place) (below : place < (before ++ load :: between).length) :
    info ∈ between := by
  rw [getElem?_append_left below, getElem?_append_right above.le] at stands
  obtain ⟨distance, same⟩ := Nat.exists_eq_add_of_lt above
  rw [show place - before.length = distance + 1 by omega, getElem?_cons_succ] at stands
  exact mem_of_getElem? stands

section

variable (schedule : DataSchedule context uses dataBuffer scheduledOps)
  (pairs : RemovedInPairs context scheduledOps removed)
include schedule pairs

/-- A load of a buffer that is removed is one of a data operation, and the spill write behind it is
removed with it: nothing uses the buffer between them. -/
theorem DataSchedule.removed_load (listed : place ∈ removed)
    (stands : scheduledOps[place]? = some load) (loads : LoadsBuffer load buffer) :
    ∃ next spillWrite, RemovedPair context scheduledOps removed load.op place next ∧
      load.isDataOp = true ∧ buffer = dataBuffer load.op ∧
      scheduledOps[next]? = some spillWrite ∧ isEntryOf load.op spillWrite = true ∧
      EvictsBuffer spillWrite buffer ∧
      ∀ (inner : Nat) (other : ScheduledOpInfo), place < inner → inner < next →
        scheduledOps[inner]? = some other → ¬ uses other.op buffer := by
  obtain ⟨op, idx, next, which, pair⟩ := pairs place listed
  obtain ⟨front, rest, consecutive⟩ := pair.consecutive
  obtain ⟨spillWrite, next_stands, isWrite⟩ := pair.write
  rcases which with rfl | rfl
  · have entry_write : isEntryOf op spillWrite = true :=
      isEntryOf_of_mem_dataPlaces (by rw [consecutive]; simp) next_stands
    have same_write := isEntryOf_iff.mp entry_write
    obtain ⟨data, rfl⟩ := isEntryOf_iff.mp
      (isEntryOf_of_mem_dataPlaces (by rw [consecutive]; simp) stands)
    have notWrite : load.isSpillWrite = false :=
      eq_false_iff.mpr fun isWrite => not_loadsBuffer_of_isSpillWrite isWrite loads
    have outputs := schedule.loads load (mem_of_getElem? stands) data pair.single notWrite
    have own : buffer = dataBuffer load.op := by
      obtain ⟨-, resource, inside, rfl⟩ := loads
      have mem := mem_map_of_mem (f := IntervalInfo.buffer) inside
      rw [outputs] at mem
      exact mem_singleton.mp mem
    have saved := schedule.evicts spillWrite (mem_of_getElem? next_stands) same_write.1
      (same_write.2.symm ▸ pair.single) isWrite
    rw [same_write.2, ← own] at saved
    refine ⟨next, spillWrite, pair, data, own, next_stands, entry_write, ⟨isWrite, saved⟩, ?_⟩
    obtain ⟨info, resource, info_stands, output, unused⟩ := pair.unused
    rw [stands] at info_stands
    obtain rfl := Option.some.inj info_stands
    have resource_own : resource.buffer = buffer := by
      cases resources : load.outputResourceInfo with
      | nil => simp [resources] at output
      | cons first others =>
        rw [resources] at output outputs
        obtain rfl := Option.some.inj output
        rw [own]
        exact (cons.inj outputs).1
    intro inner other above below found used
    exact unused inner other above below found (resource_own ▸ schedule.seen _ _ used)
  · rw [stands] at next_stands
    exact absurd loads (not_loadsBuffer_of_isSpillWrite (Option.some.inj next_stands ▸ isWrite))

theorem DataSchedule.load_kept (split : scheduledOps = (before ++ load :: between) ++ user :: rest)
    (loads : LoadsBuffer load buffer) (kept : ∀ info ∈ between, ¬ EvictsBuffer info buffer)
    (isOriginal : user.isOriginalOp = true) (used : uses user.op buffer) :
    before.length ∉ removed := by
  intro listed
  have stands := getElem?_of_split (split.trans (append_assoc ..))
  have user_stands := getElem?_of_split split
  obtain ⟨next, spillWrite, pair, -, -, next_stands, -, evicts, unused⟩ :=
    schedule.removed_load pairs listed stands loads
  have user_behind : before.length < (before ++ load :: between).length := by simp
  -- The spill write stands before the use, at it or behind it.
  rcases Nat.lt_trichotomy next (before ++ load :: between).length with inside | same | behind
  · rw [split] at next_stands
    exact kept spillWrite (mem_between next_stands pair.before inside) evicts
  · rw [same, user_stands] at next_stands
    have isWrite := evicts.1
    rw [← Option.some.inj next_stands, not_isSpillWrite_of_isOriginalOp isOriginal] at isWrite
    exact absurd isWrite (by simp)
  · exact unused _ user user_behind behind user_stands used

end

/-! ### The schedule without the pairs -/

variable {mid : List ScheduledOpInfo}

theorem DataSchedule.usesLoaded_mid (schedule : DataSchedule context uses dataBuffer scheduledOps)
    (pairs : RemovedInPairs context scheduledOps removed)
    (left : Left removed Promoted 0 scheduledOps mid) : UsesLoaded uses mid := by
  rintro front user rest buffer rfl isOriginal used
  obtain ⟨before, info, after, split, isFront, -, promoted, -⟩ := left.split
  -- A promoted entry is one of a data operation, which uses no buffer.
  have same : user = info := by
    rcases promoted with same | ⟨data, -, -, same⟩
    · exact same
    · rw [same] at used
      exact absurd used (schedule.users info (by rw [split]; simp) data buffer)
  subst same
  obtain ⟨first, load, between, loaded, loads, kept⟩ :=
    schedule.loaded before user after buffer split isOriginal used
  rw [loaded] at split isFront
  have stays := schedule.load_kept pairs split loads kept isOriginal used
  obtain ⟨front_first, entry, front_between, rfl, -, changed, isBetween⟩ :=
    isFront.keeps (by rw [zero_add]; exact stays)
  refine ⟨front_first, entry, front_between, rfl, changed.loadsBuffer_iff.mpr loads, ?_⟩
  intro other mem evicts
  obtain ⟨info, inside, changed⟩ := isBetween.exists_of_mem mem
  exact kept info inside (changed.evictsBuffer evicts)

variable {op : Nat} {chain front : List ScheduledOpInfo} {spillWrite next : ScheduledOpInfo}

theorem DataSchedule.feeds_mid (schedule : DataSchedule context uses dataBuffer scheduledOps)
    (pairs : RemovedInPairs context scheduledOps removed)
    (left : Left removed Promoted 0 scheduledOps mid) (feeds : Feeds uses scheduledOps op) :
    ∃ load ∈ mid, isEntryOf op load = true ∧ load.isSpillWrite = false := by
  obtain ⟨before, load, between, user, rest, buffer, split, entry, loads, kept, isOriginal, used⟩ :=
    feeds
  have stays := schedule.load_kept pairs split loads kept isOriginal used
  rw [split, append_assoc, cons_append] at left
  obtain ⟨front, kept_load, left_rest, rfl, -, changed, -⟩ :=
    left.keeps (by rw [zero_add]; exact stays)
  refine ⟨kept_load, by simp, ?_, ?_⟩
  · rw [isEntryOf, changed.isDataOp, changed.op]
    exact entry
  · exact eq_false_iff.mpr fun isWrite =>
      not_loadsBuffer_of_isSpillWrite isWrite (changed.loadsBuffer_iff.mpr loads)

theorem isSpillRead_of_isReadChain (reads : IsReadChain chain)
    (split : chain = front ++ spillWrite :: next :: rest)
    (isWrite : spillWrite.isSpillWrite = true) : isSpillRead next = true := by
  induction chain using IsReadChain.induct generalizing front with
  | case1 => exact absurd split (by simp)
  | case2 => cases front <;> simp at split
  | case3 first second chain ih =>
    obtain ⟨isRead, -, reads⟩ := reads
    rcases front with _ | ⟨_, _ | ⟨_, front⟩⟩
    · obtain ⟨rfl, -⟩ := cons.inj split
      rw [not_isSpillWrite_of_isSpillRead isRead] at isWrite
      exact absurd isWrite (by simp)
    · obtain ⟨rfl, rfl⟩ := cons.inj (cons.inj split).2
      cases rest with
      | nil => exact reads
      | cons _ _ => exact reads.1
    · exact ih reads (cons.inj (cons.inj split).2).2

theorem isSpillRead_of_isDataChain (isChain : IsDataChain chain)
    (split : chain = front ++ spillWrite :: next :: rest)
    (isWrite : spillWrite.isSpillWrite = true) : isSpillRead next = true := by
  match chain, front with
  | [], _ => exact absurd split (by simp)
  | [_], front => cases front <;> simp at split
  | first :: second :: chain, [] =>
    obtain ⟨rfl, -⟩ := cons.inj split
    rw [not_isSpillWrite_of_isOriginalOp isChain.1] at isWrite
    exact absurd isWrite (by simp)
  | first :: second :: chain, [_] =>
    obtain ⟨rfl, rfl⟩ := cons.inj (cons.inj split).2
    have reads := isChain.2.2
    cases rest with
    | nil => exact reads
    | cons _ _ => exact reads.1
  | first :: second :: chain, _ :: _ :: front =>
    exact isSpillRead_of_isReadChain isChain.2.2 (cons.inj (cons.inj split).2).2 isWrite

theorem exists_write_of_isDataChain {spillRead : ScheduledOpInfo} (isChain : IsDataChain chain)
    (split : chain = front ++ spillRead :: rest) (isRead : isSpillRead spillRead = true) :
    ∃ spillWrite ∈ front, spillWrite.isSpillWrite = true := by
  match chain, front with
  | [], _ => exact absurd split (by simp)
  | [_], [] =>
    obtain ⟨rfl, -⟩ := cons.inj split
    rw [not_isSpillRead_of_isOriginalOp isChain] at isRead
    exact absurd isRead (by simp)
  | [_], _ :: front => simp at split
  | first :: second :: chain, [] =>
    obtain ⟨rfl, -⟩ := cons.inj split
    rw [not_isSpillRead_of_isOriginalOp isChain.1] at isRead
    exact absurd isRead (by simp)
  | first :: second :: chain, [_] =>
    obtain ⟨rfl, -⟩ := cons.inj (cons.inj split).2
    have isWrite := isChain.2.1
    rw [not_isSpillWrite_of_isSpillRead isRead] at isWrite
    exact absurd isWrite (by simp)
  | first :: second :: chain, _ :: _ :: front =>
    obtain ⟨rfl, -⟩ := cons.inj (cons.inj split).2
    exact ⟨_, by simp, isChain.2.1⟩

theorem RemovedPair.exists_read {idx next later : Nat} {other : ScheduledOpInfo}
    (pair : RemovedPair context scheduledOps removed op idx next) (chains : DataChains scheduledOps)
    (stands : scheduledOps[next]? = some spillWrite) (isWrite : spillWrite.isSpillWrite = true)
    (stands_later : scheduledOps[later]? = some other) (entry : isEntryOf op other = true)
    (isWrite_later : other.isSpillWrite = true) (behind : next < later) :
    ∃ place spillRead, next < place ∧ place < later ∧ scheduledOps[place]? = some spillRead ∧
      isEntryOf op spillRead = true ∧ isSpillRead spillRead = true := by
  obtain ⟨front, rest, consecutive⟩ := pair.consecutive
  have ascending := dataPlaces_pairwise scheduledOps op
  have standAt := standAt_dataPlaces scheduledOps op
  have listed : later ∈ dataPlaces scheduledOps op :=
    mem_dataPlaces.mpr ⟨other, stands_later, entry⟩
  rw [consecutive] at ascending listed standAt
  obtain ⟨-, tail_ascending, across⟩ := pairwise_append.mp ascending
  obtain ⟨index_lt, tail_ascending⟩ := pairwise_cons.mp tail_ascending
  obtain ⟨next_lt, rest_ascending⟩ := pairwise_cons.mp tail_ascending
  have in_rest : later ∈ rest := by
    rcases mem_append.mp listed with inside | inside
    · exact absurd (across later inside next (by simp)) (lt_asymm behind)
    · rcases mem_cons.mp inside with rfl | inside
      · exact absurd pair.before (lt_asymm behind)
      · rcases mem_cons.mp inside with rfl | inside
        · exact absurd behind (lt_irrefl _)
        · exact inside
  cases rest with
  | nil => exact absurd in_rest not_mem_nil
  | cons place rest =>
    obtain ⟨chain_front, chain_rest, split, -, stand_rest⟩ := StandAt.append standAt
    obtain _ | ⟨-, _ | ⟨second_stands, _ | ⟨third_stands, -⟩⟩⟩ := stand_rest
    rename_i load second third others
    rw [stands] at second_stands
    obtain rfl := Option.some.inj second_stands
    have at_write : scheduledOps.filter (isEntryOf op) =
        (chain_front ++ [load]) ++ spillWrite :: third :: others := by
      rw [split, append_assoc]
      rfl
    have isRead := isSpillRead_of_isDataChain (chains.chain op) at_write isWrite
    have third_entry : isEntryOf op third = true := by
      have mem : third ∈ scheduledOps.filter (isEntryOf op) := by rw [split]; simp
      exact (mem_filter.mp mem).2
    have place_le : place ≤ later := by
      rcases mem_cons.mp in_rest with rfl | inside
      · exact Nat.le_refl _
      · exact ((pairwise_cons.mp rest_ascending).1 later inside).le
    refine ⟨place, third, next_lt place mem_cons_self, lt_of_le_of_ne place_le ?_,
      third_stands, third_entry, isRead⟩
    rintro rfl
    rw [stands_later] at third_stands
    rw [← Option.some.inj third_stands, isSpillRead_eq_false isWrite_later] at isRead
    exact absurd isRead (by simp)

theorem DataSchedule.writers_mid (schedule : DataSchedule context uses dataBuffer scheduledOps)
    (pairs : RemovedInPairs context scheduledOps removed)
    (left : Left removed Promoted 0 scheduledOps mid) : WritesOfLastWriter mid := by
  rintro front spillWrite rest buffer rfl evicts
  obtain ⟨before, info, after, split, isFront, write_kept, promoted, -⟩ := left.split
  obtain rfl := promoted.eq_of_isSpillWrite evicts.1
  obtain ⟨first, load, between, loaded, loads, writer, last⟩ :=
    schedule.writers before spillWrite after buffer split evicts
  rw [loaded] at split isFront write_kept
  have stands := getElem?_of_split (split.trans (append_assoc ..))
  have write_stands := getElem?_of_split split
  have stays : first.length ∉ removed := by
    intro listed
    obtain ⟨next, paired, pair, data, own, next_stands, entry, saves, -⟩ :=
      schedule.removed_load pairs listed stands loads
    have load_mem := mem_of_getElem? stands
    have write_mem := mem_of_getElem? write_stands
    have write_entry : isEntryOf load.op spillWrite = true := isEntryOf_iff.mpr
      ⟨(schedule.chains.kind load load_mem spillWrite write_mem writer).symm.trans data,
        writer.symm⟩
    have next_le := pair.next_le (mem_dataPlaces.mpr ⟨spillWrite, write_stands, write_entry⟩)
      (show first.length < (first ++ load :: between).length by simp)
    rcases next_le.lt_or_eq with inside | same
    · obtain ⟨place, readBack, above, below, read_stands, read_entry, isRead⟩ :=
        pair.exists_read schedule.chains next_stands saves.1 write_stands write_entry evicts.1
          inside
      rw [split] at read_stands
      refine last readBack (mem_between read_stands (pair.before.trans above) below)
        ⟨.inr isRead, ?_⟩
      have read_data := isEntryOf_iff.mp read_entry
      have outputs := schedule.loads readBack
        (by rw [split]; exact mem_of_getElem? read_stands) read_data.1
        (read_data.2.symm ▸ pair.single) (not_isSpillWrite_of_isSpillRead isRead)
      rw [read_data.2, ← own] at outputs
      exact mem_map.mp (by rw [outputs]; exact mem_singleton_self _)
    · rw [Nat.zero_add, ← same] at write_kept
      exact write_kept pair.next_removed
  obtain ⟨front_first, entry, front_between, rfl, -, changed, isBetween⟩ :=
    isFront.keeps (by rw [Nat.zero_add]; exact stays)
  refine ⟨front_first, entry, front_between, rfl, changed.loadsBuffer_iff.mpr loads,
    changed.op.trans writer, fun other mem loads_other => ?_⟩
  obtain ⟨info, inside, changed⟩ := isBetween.exists_of_mem mem
  exact last info inside (changed.loadsBuffer_iff.mp loads_other)

theorem spilledBuffer_of_loads (isRead : isSpillRead info = true)
    (outputs : info.outputResourceInfo.map IntervalInfo.buffer = [buffer]) :
    spilledBuffer info = some buffer := by
  rw [spilledBuffer, not_isSpillWrite_of_isSpillRead isRead, if_neg Bool.false_ne_true,
    if_pos isRead]
  cases resources : info.outputResourceInfo with
  | nil => simp [resources] at outputs
  | cons first others =>
    rw [resources] at outputs
    rw [head?_cons, Option.map_some, (cons.inj outputs).1]

theorem DataSchedule.reads_mid (schedule : DataSchedule context uses dataBuffer scheduledOps)
    (pairs : RemovedInPairs context scheduledOps removed)
    (left : Left removed Promoted 0 scheduledOps mid)
    (chains : ∀ op, IsDataChain (mid.filter (isEntryOf op))) : ReadsWritten mid := by
  rintro front spillRead rest buffer split_mid isRead spilled
  rw [split_mid] at left
  obtain ⟨before, info, after, split, isFront, -, promoted, -⟩ := left.split
  obtain rfl := promoted.eq_of_isSpillRead isRead
  obtain ⟨first, spillWrite, between, written, evicts, writer⟩ :=
    schedule.written before spillRead after buffer split isRead spilled
  have read_mem : spillRead ∈ scheduledOps := by rw [split]; simp
  by_cases listed : first.length ∈ removed
  · -- The chain of the operation has another spill write before the spill read.
    have stands : scheduledOps[first.length]? = some spillWrite :=
      getElem?_of_split (split.trans (by rw [written, append_assoc]; rfl))
    obtain ⟨op, idx, next, which, pair⟩ := pairs _ listed
    have inside : first.length ∈ dataPlaces scheduledOps op := by
      obtain ⟨chain_front, chain_rest, consecutive⟩ := pair.consecutive
      rw [consecutive]
      rcases which with same | same <;> simp [same]
    obtain ⟨data, rfl⟩ := isEntryOf_iff.mp (isEntryOf_of_mem_dataPlaces inside stands)
    have read_data := (schedule.chains.kind spillWrite (mem_of_getElem? stands) spillRead
      read_mem writer).symm.trans data
    have read_entry := isEntryOf_iff.mpr ⟨read_data, writer.symm⟩
    have chain_split : mid.filter (isEntryOf spillWrite.op) =
        front.filter (isEntryOf spillWrite.op) ++
          spillRead :: rest.filter (isEntryOf spillWrite.op) := by
      rw [split_mid, filter_append, filter_cons, if_pos read_entry]
    obtain ⟨other, mem, isWrite⟩ :=
      exists_write_of_isDataChain (chains spillWrite.op) chain_split isRead
    obtain ⟨in_front, other_entry⟩ := mem_filter.mp mem
    have other_data := isEntryOf_iff.mp other_entry
    obtain ⟨original, original_mem, changed⟩ := isFront.exists_of_mem in_front
    obtain rfl := changed.eq_of_isSpillWrite isWrite
    have saved := schedule.evicts other (by rw [split]; simp [original_mem]) other_data.1
      (other_data.2.symm ▸ pair.single) isWrite
    have outputs := schedule.loads spillRead read_mem read_data (writer ▸ pair.single)
      (not_isSpillWrite_of_isSpillRead isRead)
    have own := spilledBuffer_of_loads isRead outputs
    obtain ⟨front_before, front_rest, rfl⟩ := append_of_mem in_front
    refine ⟨front_before, other, front_rest, rfl, ⟨isWrite, ?_⟩, other_data.2.trans writer⟩
    rw [saved, other_data.2, writer, ← own, spilled]
  · rw [written] at isFront
    obtain ⟨front_first, entry, front_between, rfl, -, changed, -⟩ :=
      isFront.keeps (by rw [Nat.zero_add]; exact listed)
    have same : entry = spillWrite := by
      refine changed.eq_of_isSpillWrite ?_
      rw [changed.isSpillWrite]
      exact evicts.1
    exact ⟨front_first, entry, front_between, rfl, same ▸ evicts, same ▸ writer⟩

end Removed

/-! ### The schedule without redundant spill writes -/

section Duplicates

variable {earlier entries front rest : List ScheduledOpInfo} {info : ScheduledOpInfo}

theorem withoutDuplicates_append (earlier front rest : List ScheduledOpInfo) :
    withoutDuplicates earlier (front ++ rest) =
      withoutDuplicates earlier front ++ withoutDuplicates (earlier ++ front) rest := by
  induction front generalizing earlier with
  | nil => rw [nil_append, withoutDuplicates, nil_append, append_nil]
  | cons info front ih =>
    rw [cons_append, withoutDuplicates, withoutDuplicates, ih, append_assoc]
    split <;> rfl

theorem withoutDuplicates_cons (isKept : isSpillWriteDuplicate earlier info = false) :
    withoutDuplicates earlier (info :: rest) =
      info :: withoutDuplicates (earlier ++ [info]) rest := by
  rw [withoutDuplicates, isKept, if_neg Bool.false_ne_true]

theorem mem_of_mem_withoutDuplicates (mem : info ∈ withoutDuplicates earlier entries) :
    info ∈ entries := by
  induction entries generalizing earlier with
  | nil => exact mem
  | cons first entries ih =>
    rw [withoutDuplicates] at mem
    split at mem
    · exact mem_cons_of_mem _ (ih mem)
    · rcases mem_cons.mp mem with rfl | later
      · exact mem_cons_self
      · exact mem_cons_of_mem _ (ih later)

theorem withoutDuplicates_split
    (split : withoutDuplicates earlier entries = front ++ info :: rest) :
    ∃ before after, entries = before ++ info :: after ∧
      front = withoutDuplicates earlier before := by
  induction entries generalizing earlier front with
  | nil => exact absurd split (by simp [withoutDuplicates])
  | cons first entries ih =>
    by_cases duplicate : isSpillWriteDuplicate earlier first = true
    · rw [withoutDuplicates, if_pos duplicate] at split
      obtain ⟨before, after, rfl, rfl⟩ := ih split
      refine ⟨first :: before, after, rfl, ?_⟩
      rw [withoutDuplicates, if_pos duplicate]
    · rw [withoutDuplicates, if_neg duplicate] at split
      cases front with
      | nil =>
        obtain ⟨rfl, -⟩ := cons.inj split
        exact ⟨[], entries, rfl, rfl⟩
      | cons _ front =>
        obtain ⟨rfl, tail_split⟩ := cons.inj split
        obtain ⟨before, after, rfl, rfl⟩ := ih tail_split
        refine ⟨first :: before, after, rfl, ?_⟩
        rw [withoutDuplicates, if_neg duplicate]

theorem isSpillWriteDuplicate_eq_false (notWrite : info.isSpillWrite = false) :
    isSpillWriteDuplicate earlier info = false := by
  rw [isSpillWriteDuplicate, notWrite, Bool.false_and]

variable {buffer : Buffer} {op : Nat}

theorem isSpillWrite_of_loads (loads : LoadsBuffer info buffer) : info.isSpillWrite = false :=
  eq_false_iff.mpr fun isWrite => not_loadsBuffer_of_isSpillWrite isWrite loads

theorem usesLoaded_removeRedundantSpillWrites {uses : Nat → Buffer → Prop}
    (loaded : UsesLoaded uses entries) : UsesLoaded uses (removeRedundantSpillWrites entries) := by
  intro front user rest buffer split isOriginal used
  obtain ⟨before, after, same, rfl⟩ := withoutDuplicates_split split
  obtain ⟨first, load, between, rfl, loads, kept⟩ :=
    loaded before user after buffer same isOriginal used
  rw [withoutDuplicates_append, withoutDuplicates_cons
    (isSpillWriteDuplicate_eq_false (isSpillWrite_of_loads loads))]
  exact ⟨_, load, _, rfl, loads, fun info mem => kept info (mem_of_mem_withoutDuplicates mem)⟩

theorem isLastWriter_withoutDuplicates (writer : IsLastWriter front buffer op) :
    IsLastWriter (withoutDuplicates earlier front) buffer op := by
  obtain ⟨first, load, between, rfl, loads, same, last⟩ := writer
  rw [withoutDuplicates_append, withoutDuplicates_cons
    (isSpillWriteDuplicate_eq_false (isSpillWrite_of_loads loads))]
  exact ⟨_, load, _, rfl, loads, same, fun info mem => last info (mem_of_mem_withoutDuplicates mem)⟩

/-- A spill read stands behind a spill write of its operation and its buffer, which was written
last by this operation, so that its value is saved. -/
def ReadsLastWriter (entries : List ScheduledOpInfo) : Prop :=
  ∀ front info rest buffer, entries = front ++ info :: rest → isSpillRead info = true →
    spilledBuffer info = some buffer → ∃ before spillWrite between,
      front = before ++ spillWrite :: between ∧ EvictsBuffer spillWrite buffer ∧
        spillWrite.op = info.op ∧ IsLastWriter before buffer info.op

theorem spilledBuffer_of_isSpillWrite (isWrite : info.isSpillWrite = true) :
    spilledBuffer info = info.inputResourceInfo.head?.map IntervalInfo.buffer := by
  rw [spilledBuffer, if_pos isWrite]

theorem readsLastWriter_removeRedundantSpillWrites (written : ReadsWritten entries)
    (writers : WritesOfLastWriter entries) :
    ReadsLastWriter (removeRedundantSpillWrites entries) := by
  intro front spillRead rest buffer split isRead spilled
  obtain ⟨before, after, same, rfl⟩ := withoutDuplicates_split split
  obtain ⟨someFirst, someWrite, someRest, someSplit, someEvicts, someWriter⟩ :=
    written before spillRead after buffer same isRead spilled
  have matching : ∃ other ∈ before, (other.isSpillWrite && decide (other.op = spillRead.op) &&
      decide (spilledBuffer other = some buffer)) = true := by
    refine ⟨someWrite, by rw [someSplit]; simp, ?_⟩
    simp [someEvicts.1, someEvicts.2, someWriter]
  obtain ⟨spillWrite, found⟩ := Option.isSome_iff_exists.mp (find?_isSome.mpr matching)
  obtain ⟨kind, first, between, rfl, earlier⟩ := find?_eq_some_iff_append.mp found
  simp only [and_eq_true, decide_eq_true_eq] at kind
  obtain ⟨⟨isWrite, writer⟩, saved⟩ := kind
  have isKept : isSpillWriteDuplicate ([] ++ first) spillWrite = false := by
    rw [nil_append, isSpillWriteDuplicate, isWrite, Bool.true_and, any_eq_false]
    intro other mem duplicate
    simp only [and_eq_true, decide_eq_true_eq] at duplicate
    obtain ⟨⟨isWrite_other, op⟩, buffers⟩ := duplicate
    have other_saved : spilledBuffer other = some buffer := by
      rw [spilledBuffer_of_isSpillWrite isWrite_other, buffers,
        ← spilledBuffer_of_isSpillWrite isWrite, saved]
    have unmatched := earlier other mem
    simp [isWrite_other, op, writer, other_saved] at unmatched
  rw [withoutDuplicates_append, withoutDuplicates_cons isKept]
  refine ⟨_, spillWrite, _, rfl, ⟨isWrite, saved⟩, writer, isLastWriter_withoutDuplicates ?_⟩
  rw [← writer]
  refine writers first spillWrite (between ++ spillRead :: after) buffer ?_ ⟨isWrite, saved⟩
  rw [same, append_assoc, cons_append]

theorem startsWithOriginal_withoutDuplicates
    (isChain : IsDataChain (entries.filter (isEntryOf op))) :
    (withoutDuplicates earlier entries).filter (isEntryOf op) = [] ∨
      StartsWithOriginal ((withoutDuplicates earlier entries).filter (isEntryOf op)) := by
  have outside : ∀ {earlier list : List ScheduledOpInfo},
      (∀ info ∈ list, ¬ isEntryOf op info = true) →
        (withoutDuplicates earlier list).filter (isEntryOf op) = [] := by
    intro earlier list others
    exact filter_eq_nil_iff.mpr fun info mem => others info (mem_of_mem_withoutDuplicates mem)
  cases chain : entries.filter (isEntryOf op) with
  | nil => exact .inl (outside (filter_eq_nil_iff.mp chain))
  | cons original rest =>
    rw [chain] at isChain
    have isOriginal : original.isOriginalOp = true := by
      cases rest with
      | nil => exact isChain
      | cons _ _ => exact isChain.1
    obtain ⟨before, after, rfl, none_before, isEntry, rfl⟩ := filter_eq_cons_iff.mp chain
    rw [withoutDuplicates_append, withoutDuplicates_cons (isSpillWriteDuplicate_eq_false
      (not_isSpillWrite_of_isOriginalOp isOriginal)), filter_append, outside none_before,
      nil_append, filter_cons, if_pos isEntry]
    refine .inr ⟨original, _, rfl, isOriginal, fun info mem => ?_⟩
    obtain ⟨inside, entry⟩ := mem_filter.mp mem
    exact isOriginalOp_of_isSpill (isSpill_of_isDataChain isChain info
      (mem_filter.mpr ⟨mem_of_mem_withoutDuplicates inside, entry⟩))

end Duplicates

/-! ### Both optimisations -/

/-- What both optimisations keep of a schedule: every use finds its buffer loaded, a data operation
that feeds a use has one `ORIGINAL`, before its other entries, and every spill read loads what the
spill write before it saved. -/
structure SpillsKept (uses : Nat → Buffer → Prop) (before after : List ScheduledOpInfo) : Prop where
  loaded : UsesLoaded uses after
  originals : ∀ op, Feeds uses before op → StartsWithOriginal (after.filter (isEntryOf op))
  chains : ∀ op, after.filter (isEntryOf op) ≠ [] →
    StartsWithOriginal (after.filter (isEntryOf op))
  reads : ReadsLastWriter after

/-- The optimisation of the spills of data operations ends where values have single roots. It and
the removal of redundant spill writes keep the meaning of the schedule, and what is used is loaded
after its last eviction also when the redundant spill writes count as evictions. -/
theorem optimizeDataOpsSpills_spillsKept (context : Context) (hashOrder : SpillTree → SpillTree)
    (uses : Nat → Buffer → Prop) (dataBuffer : Nat → Buffer) (scheduledOps : List ScheduledOpInfo)
    (order : ∀ tree, (hashOrder tree).Perm tree)
    (schedule : DataSchedule context uses dataBuffer scheduledOps) :
    ((∀ info ∈ scheduledOps, HasSingleRoots context info.op) →
      ∃ mid, optimizeDataOpsSpills context hashOrder scheduledOps = some mid) ∧
    ∀ mid, optimizeDataOpsSpills context hashOrder scheduledOps = some mid →
      UsesLoaded uses mid ∧
        SpillsKept uses scheduledOps (removeRedundantSpillWrites mid) := by
  refine ⟨optimizeDataOpsSpills_exists order schedule.chains ?_, fun mid run => ?_⟩
  · intro info mem data single notWrite empty
    have outputs := schedule.loads info mem data single notWrite
    rw [empty] at outputs
    exact absurd outputs (by simp)
  · obtain ⟨promotedOps, removed, rfl, promoted, pairs, chains⟩ :=
      optimizeDataOpsSpills_spec order schedule.chains run
    have left : Left removed Promoted 0 scheduledOps (deleteAt removed promotedOps) :=
      Left.of_deleteAt promoted
    have loaded := schedule.usesLoaded_mid pairs left
    have starts : ∀ op, (removeRedundantSpillWrites (deleteAt removed promotedOps)).filter
        (isEntryOf op) ≠ [] → StartsWithOriginal ((removeRedundantSpillWrites
          (deleteAt removed promotedOps)).filter (isEntryOf op)) :=
      fun op some => (startsWithOriginal_withoutDuplicates (chains op)).resolve_left some
    refine ⟨loaded, usesLoaded_removeRedundantSpillWrites loaded, fun op feeds => ?_, starts,
      readsLastWriter_removeRedundantSpillWrites (schedule.reads_mid pairs left chains)
        (schedule.writers_mid pairs left)⟩
    obtain ⟨load, mem, entry, notWrite⟩ := schedule.feeds_mid pairs left feeds
    refine starts op (ne_nil_of_mem (mem_filter.mpr ⟨?_, entry⟩))
    obtain ⟨before, after, same⟩ := append_of_mem mem
    rw [removeRedundantSpillWrites, same, withoutDuplicates_append,
      withoutDuplicates_cons (isSpillWriteDuplicate_eq_false notWrite)]
    simp

/-! ### Data that is loaded too early -/

/-- Operation 0 loads a buffer, which operation 1 uses. -/
def prefetchedContext : Context where
  memKind := .cmxNN
  execOps := [⟨[], [], 1⟩, ⟨[.bodyResult 0 0], [], 0⟩]
  types _ := .asyncValue (some .cmxNN)
  aliasInfo := {
    memKind := .cmxNN
    roots := fun _ => some [.buffer (relocatedBuffer 0)]
    allAliases := fun _ => none
    traversal := id }
  handler := ⟨fun _ => none, [], [], 0, false⟩
  nextPosition := 1

/-- The data is loaded, spilled before it is used, and read back. -/
def prefetchedSpills : List ScheduledOpInfo :=
  [{ relocatedEntry 0 .originalOp 0 0 with isDataOp := true },
    { relocatedEntry 0 .implicitSpillWriteOp 10 0 with isDataOp := true },
    { relocatedEntry 0 .implicitSpillReadOp 20 8 with isDataOp := true },
    { relocatedEntry 1 .originalOp 30 12 with inputResourceInfo := [⟨8, 12, relocatedBuffer 0⟩] }]

def prefetchedUses (op : Nat) (buffer : Buffer) : Prop := op = 1 ∧ buffer = relocatedBuffer 0

theorem prefetchedSpills_split {front rest : List ScheduledOpInfo}
    (split : prefetchedSpills = front ++ info :: rest) :
    ∃ place < 4, front = prefetchedSpills.take place ∧ prefetchedSpills[place]? = some info := by
  refine ⟨front.length, ?_, by rw [split, take_left], ?_⟩
  · have length : prefetchedSpills.length = 4 := rfl
    rw [split, length_append, length_cons] at length
    omega
  · exact getElem?_of_split split

theorem prefetchedSpills_dataSchedule :
    DataSchedule prefetchedContext prefetchedUses (fun _ => relocatedBuffer 0)
      prefetchedSpills where
  chains := by
    refine ⟨by decide, fun op => ?_⟩
    by_cases first : op = 0
    · subst first
      exact ⟨rfl, rfl, rfl⟩
    · have others : prefetchedSpills.filter (isEntryOf op) = [] := by
        simp [prefetchedSpills, isEntryOf, relocatedEntry, Ne.symm first]
      rw [others]
      trivial
  loads := by
    have all : ∀ info ∈ prefetchedSpills, info.isDataOp = true → info.isSpillWrite = false →
        info.outputResourceInfo.map IntervalInfo.buffer = [relocatedBuffer 0] := by decide
    exact fun info mem data _ => all info mem data
  evicts := by
    have all : ∀ info ∈ prefetchedSpills, info.isDataOp = true → info.isSpillWrite = true →
        spilledBuffer info = some (relocatedBuffer 0) := by decide
    exact fun info mem data _ => all info mem data
  seen := by
    rintro op buffer ⟨rfl, rfl⟩
    exact ⟨_, rfl, .inl ⟨_, mem_singleton_self _, rfl, rfl⟩⟩
  users := by
    have other : ∀ info ∈ prefetchedSpills, info.isDataOp = true → info.op ≠ 1 := by decide
    exact fun info mem data _ uses => other info mem data uses.1
  loaded := by
    rintro front info rest buffer split - ⟨op, rfl⟩
    obtain ⟨place, bound, rfl, stands⟩ := prefetchedSpills_split split
    interval_cases place <;> obtain rfl := Option.some.inj stands
    · exact absurd op (by decide)
    · exact absurd op (by decide)
    · exact absurd op (by decide)
    · refine ⟨prefetchedSpills.take 2, _, [], rfl, ⟨.inr rfl, _, mem_singleton_self _, rfl⟩, ?_⟩
      simp
  written := by
    rintro front info rest buffer split isRead spilled
    obtain ⟨place, bound, rfl, stands⟩ := prefetchedSpills_split split
    interval_cases place <;> obtain rfl := Option.some.inj stands
    · exact absurd isRead (by decide)
    · exact absurd isRead (by decide)
    · obtain rfl := Option.some.inj spilled
      exact ⟨prefetchedSpills.take 1, _, [], rfl, ⟨rfl, rfl⟩, rfl⟩
    · exact absurd isRead (by decide)
  writers := by
    rintro front info rest buffer split ⟨isWrite, saved⟩
    obtain ⟨place, bound, rfl, stands⟩ := prefetchedSpills_split split
    interval_cases place <;> obtain rfl := Option.some.inj stands
    · exact absurd isWrite (by decide)
    · obtain rfl := Option.some.inj saved
      refine ⟨[], _, [], rfl, ⟨.inl rfl, _, mem_singleton_self _, rfl⟩, rfl, ?_⟩
      simp
    · exact absurd isWrite (by decide)
    · exact absurd isWrite (by decide)

/-- The spill is removed, and the data is loaded where it was read back. -/
theorem prefetchedSpills_spillsKept :
    ∃ mid, optimizeDataOpsSpills prefetchedContext id prefetchedSpills = some mid ∧
      SpillsKept prefetchedUses prefetchedSpills (removeRedundantSpillWrites mid) := by
  obtain ⟨returns, kept⟩ := optimizeDataOpsSpills_spillsKept prefetchedContext id prefetchedUses
    (fun _ => relocatedBuffer 0) prefetchedSpills (fun _ => List.Perm.refl _)
    prefetchedSpills_dataSchedule
  obtain ⟨mid, run⟩ := returns fun info mem => by
    have valid : ∀ info ∈ prefetchedSpills,
        prefetchedContext.execOps[info.op]?.isSome = true := by decide
    obtain ⟨execOp, exec⟩ := Option.isSome_iff_exists.mp (valid info mem)
    exact ⟨execOp, exec, fun _ _ _ => ⟨_, rfl⟩, fun _ _ _ => ⟨_, rfl⟩⟩
  exact ⟨mid, run, (kept mid run).2⟩

end NpuPlugin.FeasibleMemorySchedulerSpilling
