/-
This file proves what the relocation of the outputs of compute operations removes from the schedule:
what was found, as long as no spill write stands inside of another pair.
-/

import NpuPlugin.FeasibleMemorySchedulerSpilling.Model

namespace NpuPlugin.FeasibleMemorySchedulerSpilling

open FeasibleMemoryScheduler List Nat Option Prod

/-! ### What the search finds -/

variable {scheduledOps : List ScheduledOpInfo} {spillWrite : ScheduledOpInfo}
  {entries : List (ScheduledOpInfo × Nat)} {spillReadIndex : Nat}

theorem findOriginal_spec {i origOpIndex first : Nat} {prevTime : Option Nat} {start : Option Nat}
    (found : findOriginal scheduledOps spillWrite i prevTime start = (some origOpIndex, first)) :
    start = some origOpIndex ∨ origOpIndex < i ∧ ∃ origOp,
      scheduledOps[origOpIndex]? = some origOp ∧ origOp.op = spillWrite.op ∧
        origOp.isOriginalOp = true := by
  induction i generalizing prevTime start with
  | zero => exact .inl (congrArg fst found)
  | succ i ih =>
    have widen : ∀ {place : Nat}, place < i → place < i + 1 := lt_succ_of_lt
    rw [findOriginal] at found
    split at found
    · exact .inl (congrArg fst found)
    · rename_i info entry
      split at found
      · exact (ih found).imp_right (And.imp_left widen)
      · split at found
        · exact .inl (congrArg fst found)
        · rcases ih found with taken | below
          · split at taken
            · rename_i matching
              rw [Bool.and_eq_true, decide_eq_true_eq] at matching
              obtain rfl := some.inj taken
              exact .inr ⟨lt_succ_self i, info, entry, matching⟩
            · exact .inl taken
          · exact .inr (below.imp_left widen)

theorem findSpillRead_some_spec {time : Nat} (later : ∀ entry ∈ entries, time ≤ entry.1.cycleBegin)
    (found : findSpillRead spillWrite entries (some time) = some spillReadIndex) :
    ∃ before spillRead rest, entries = before ++ (spillRead, spillReadIndex) :: rest ∧
      spillRead.op = spillWrite.op ∧ spillRead.cycleBegin = time ∧
      ∀ entry ∈ before, entry.1.op ≠ spillWrite.op ∧ entry.1.cycleBegin = time := by
  induction entries with
  | nil => exact absurd found (by simp [findSpillRead])
  | cons entry entries ih =>
    obtain ⟨info, i⟩ := entry
    obtain ⟨here, later⟩ := forall_mem_cons.mp later
    simp only [findSpillRead, some_or] at found
    split at found
    · exact absurd found (by simp)
    · rename_i cycle
      have same : info.cycleBegin = time := Nat.le_antisymm (not_lt.mp cycle) here
      split at found
      · rename_i matching
        obtain rfl := some.inj found
        exact ⟨[], info, entries, rfl, matching, same, by simp⟩
      · rename_i other
        obtain ⟨before, spillRead, rest, split, matching, time_eq, before_other⟩ := ih later found
        refine ⟨(info, i) :: before, spillRead, rest, by rw [split]; rfl, matching, time_eq, ?_⟩
        exact forall_mem_cons.mpr ⟨⟨other, same⟩, before_other⟩

theorem findSpillRead_none_spec
    (ordered : entries.Pairwise fun entry later => entry.1.cycleBegin ≤ later.1.cycleBegin)
    (found : findSpillRead spillWrite entries none = some spillReadIndex) :
    ∃ before spillRead rest, entries = before ++ (spillRead, spillReadIndex) :: rest ∧
      spillRead.op = spillWrite.op ∧ spillWrite.cycleBegin < spillRead.cycleBegin ∧
      ∀ entry ∈ before, spillWrite.cycleBegin < entry.1.cycleBegin →
        entry.1.op ≠ spillWrite.op ∧ entry.1.cycleBegin = spillRead.cycleBegin := by
  induction entries with
  | nil => exact absurd found (by simp [findSpillRead])
  | cons entry entries ih =>
    obtain ⟨info, i⟩ := entry
    obtain ⟨later, ordered⟩ := pairwise_cons.mp ordered
    by_cases next : spillWrite.cycleBegin < info.cycleBegin
    · -- This entry sets the closest cycle, which the entries after it may share.
      have same : findSpillRead spillWrite ((info, i) :: entries) none =
          findSpillRead spillWrite ((info, i) :: entries) (some info.cycleBegin) := by
        simp only [findSpillRead, if_pos next, none_or, some_or]
      rw [same] at found
      obtain ⟨before, spillRead, rest, split, matching, time_eq, before_other⟩ :=
        findSpillRead_some_spec (forall_mem_cons.mpr ⟨Nat.le_refl _, later⟩) found
      refine ⟨before, spillRead, rest, split, matching, by rw [time_eq]; exact next, ?_⟩
      intro entry mem _
      rw [time_eq]
      exact before_other entry mem
    · simp only [findSpillRead, if_neg next, none_or] at found
      obtain ⟨before, spillRead, rest, split, matching, cycle, before_other⟩ := ih ordered found
      refine ⟨(info, i) :: before, spillRead, rest, by rw [split]; rfl, matching, cycle, ?_⟩
      exact forall_mem_cons.mpr ⟨fun above => absurd above next, before_other⟩

/-- The order of the cycles of a schedule. -/
def OrderedByCycle (scheduledOps : List ScheduledOpInfo) : Prop :=
  scheduledOps.Pairwise fun info later => info.cycleBegin ≤ later.cycleBegin

theorem findSpillRead_spec {spillWriteIndex : Nat} (ordered : OrderedByCycle scheduledOps)
    (found : findSpillRead spillWrite (scheduledOps.zipIdx.drop (spillWriteIndex + 1)) none =
      some spillReadIndex) :
    spillWriteIndex < spillReadIndex ∧ ∃ spillRead, scheduledOps[spillReadIndex]? = some spillRead ∧
      spillRead.op = spillWrite.op ∧ spillWrite.cycleBegin < spillRead.cycleBegin ∧
      ∀ place info, spillWriteIndex < place → place < spillReadIndex →
        scheduledOps[place]? = some info → spillWrite.cycleBegin < info.cycleBegin →
          info.op ≠ spillWrite.op ∧ info.cycleBegin = spillRead.cycleBegin := by
  have zipped : scheduledOps.zipIdx.Pairwise
      fun entry later => entry.1.cycleBegin ≤ later.1.cycleBegin := by
    have projected := zipIdx_map_fst 0 scheduledOps
    rw [OrderedByCycle, ← projected, pairwise_map] at ordered
    exact ordered
  obtain ⟨before, spillRead, rest, split, matching, cycle, before_other⟩ :=
    findSpillRead_none_spec (zipped.sublist (drop_sublist _ _)) found
  have entry_at : ∀ distance, (before ++ (spillRead, spillReadIndex) :: rest)[distance]? =
      scheduledOps[spillWriteIndex + 1 + distance]?.map
        fun info => (info, spillWriteIndex + 1 + distance) := by
    intro distance
    rw [← split, getElem?_drop, getElem?_zipIdx, zero_add]
  have here := entry_at before.length
  rw [getElem?_append_right le_rfl, Nat.sub_self, getElem?_cons_zero] at here
  obtain ⟨info, entry, same⟩ := map_eq_some_iff.mp here.symm
  obtain ⟨rfl, place⟩ := mk.inj same
  refine ⟨by omega, info, by rw [← place]; exact entry, matching, cycle, ?_⟩
  intro inner other above below stands late
  have mem : (other, inner) ∈ before := by
    have found := entry_at (inner - (spillWriteIndex + 1))
    rw [show spillWriteIndex + 1 + (inner - (spillWriteIndex + 1)) = inner by omega, stands,
      getElem?_append_left (by omega)] at found
    exact mem_of_getElem? found
  exact before_other (other, inner) mem late

/-! ### What the search changes -/

/-- An entry after the search: the `ORIGINAL` of a relocated output has another range there. -/
def Relocated (info after : ScheduledOpInfo) : Prop :=
  after = { info with outputResourceInfo := after.outputResourceInfo } ∧
    (info.isOriginalOp = false → after = info)

theorem Relocated.refl (info : ScheduledOpInfo) : Relocated info info := ⟨rfl, fun _ => rfl⟩

namespace Relocated

variable {info after final : ScheduledOpInfo} (relocated : Relocated info after)
include relocated

theorem op : after.op = info.op := by rw [relocated.1]

theorem opType : after.opType = info.opType := by rw [relocated.1]

theorem cycleBegin : after.cycleBegin = info.cycleBegin := by rw [relocated.1]

theorem isOriginalOp : after.isOriginalOp = info.isOriginalOp := by
  simp only [ScheduledOpInfo.isOriginalOp, relocated.opType]

theorem isSpillWrite : after.isSpillWrite = info.isSpillWrite := by
  simp only [ScheduledOpInfo.isSpillWrite, relocated.opType]

theorem trans (again : Relocated after final) : Relocated info final := by
  refine ⟨?_, fun kept => ?_⟩
  · rw [again.1, relocated.1]
  · rw [again.2 (by rw [relocated.isOriginalOp]; exact kept), relocated.2 kept]

end Relocated

variable {context after : Context}

theorem createBuffer_resultCount {opIdx address : Nat} {spillBuf newBuffer : Buffer}
    (created : createBuffer context opIdx spillBuf address = some (after, newBuffer)) :
    after.execOps.map ExecuteOp.resultCount = context.execOps.map ExecuteOp.resultCount := by
  simp only [createBuffer, bind_eq_some_iff, map_eq_some_iff] at created
  obtain ⟨execOp, stands, _, _, _, _, _, _, _, _, _, _, _, _, _, _, _, _, _, _, res⟩ := created
  obtain ⟨rfl, -⟩ := mk.inj res
  obtain ⟨bound, same⟩ := List.getElem?_eq_some_iff.mp stands
  exact set_getElem_self (by simpa using bound) ▸ by simp [same]

theorem relocateOutput_spec {origOp afterOp : ScheduledOpInfo} {spilled : IntervalInfo}
    {shared removeSpillOps : Bool}
    (res : relocateOutput context origOp spilled shared = some (after, afterOp, removeSpillOps)) :
    after.execOps.map ExecuteOp.resultCount = context.execOps.map ExecuteOp.resultCount ∧
      afterOp = { origOp with outputResourceInfo := afterOp.outputResourceInfo } := by
  obtain ⟨i, -, res⟩ := bind_eq_some_iff.mp res
  split at res
  · obtain ⟨⟨created, newBuffer⟩, run, same⟩ := map_eq_some_iff.mp res
    obtain ⟨rfl, rfl, -⟩ := same
    exact ⟨createBuffer_resultCount run, rfl⟩
  · split at res
    · obtain ⟨rfl, same⟩ := mk.inj (some.inj res)
      obtain ⟨rfl, -⟩ := mk.inj same
      exact ⟨rfl, rfl⟩
    · obtain ⟨rfl, same⟩ := mk.inj (some.inj res)
      obtain ⟨rfl, -⟩ := mk.inj same
      exact ⟨rfl, rfl⟩

/-- A pair is added or not, and at most the outputs of the `ORIGINAL` are changed. -/
def PairRelocated (state after : RelocationState)
    (spillWriteIndex origOpIndex spillReadIndex : Nat) : Prop :=
  after.context.execOps.map ExecuteOp.resultCount =
      state.context.execOps.map ExecuteOp.resultCount ∧
    (∀ origOp, state.scheduledOps[origOpIndex]? = some origOp → ∃ afterOp,
      afterOp = { origOp with outputResourceInfo := afterOp.outputResourceInfo } ∧
        after.scheduledOps = state.scheduledOps.set origOpIndex afterOp) ∧
    (after.pairs = state.pairs ∨ after.pairs = state.pairs ++ [⟨spillWriteIndex, spillReadIndex⟩])

theorem relocatePair_spec {state after : RelocationState} {spillWriteIndex origOpIndex first : Nat}
    (res : relocatePair state spillWriteIndex origOpIndex first spillReadIndex = some after) :
    PairRelocated state after spillWriteIndex origOpIndex spillReadIndex := by
  obtain ⟨origOp, stands, res⟩ := bind_eq_some_iff.mp res
  obtain ⟨spillReadOp, -, res⟩ := bind_eq_some_iff.mp res
  obtain ⟨spilled, -, res⟩ := bind_eq_some_iff.mp res
  have unchanged : some state = some after →
      PairRelocated state after spillWriteIndex origOpIndex spillReadIndex := by
    rintro same
    obtain rfl := some.inj same
    refine ⟨rfl, fun origOp stands => ⟨origOp, rfl, ?_⟩, .inl rfl⟩
    obtain ⟨bound, value⟩ := List.getElem?_eq_some_iff.mp stands
    rw [← value, set_getElem_self]
  split at res
  · exact unchanged res
  · obtain ⟨origExecOp, -, res⟩ := bind_eq_some_iff.mp res
    obtain ⟨owns, -, res⟩ := bind_eq_some_iff.mp res
    split at res
    · exact unchanged res
    · obtain ⟨shared, -, res⟩ := bind_eq_some_iff.mp res
      obtain ⟨⟨context, afterOp, removeSpillOps⟩, relocated, rfl⟩ := map_eq_some_iff.mp res
      obtain ⟨counts, same⟩ := relocateOutput_spec relocated
      refine ⟨counts, fun other stands_other => ⟨afterOp, ?_, rfl⟩, ?_⟩
      · rw [stands] at stands_other
        obtain rfl := some.inj stands_other
        exact same
      · cases removeSpillOps
        · exact .inl rfl
        · exact .inr rfl

/-! ### The pairs of a run -/

/-- The operation has at most one result. -/
def HasSingleResult (context : Context) (opIdx : Nat) : Prop :=
  ∃ count, (context.execOps.map ExecuteOp.resultCount)[opIdx]? = some count ∧ count ≤ 1

/-- A pair that the search finds: the spill write of an operation with a single result, which its
`ORIGINAL` precedes, and the first entry of the operation in the closest cycle after. -/
structure IsRelocationPair (context : Context) (scheduledOps : List ScheduledOpInfo)
    (pair : RelocationPair) (spillWrite spillRead origOp : ScheduledOpInfo)
    (origOpIndex : Nat) : Prop where
  write : scheduledOps[pair.spillWriteIndex]? = some spillWrite
  read : scheduledOps[pair.spillReadIndex]? = some spillRead
  original : scheduledOps[origOpIndex]? = some origOp
  isSpillWrite : spillWrite.isSpillWrite = true
  single : HasSingleResult context spillWrite.op
  original_lt : origOpIndex < pair.spillWriteIndex
  isOriginalOp : origOp.isOriginalOp = true
  original_op : origOp.op = spillWrite.op
  write_lt : pair.spillWriteIndex < pair.spillReadIndex
  read_op : spillRead.op = spillWrite.op
  cycle_lt : spillWrite.cycleBegin < spillRead.cycleBegin
  first : ∀ place info, pair.spillWriteIndex < place → place < pair.spillReadIndex →
    scheduledOps[place]? = some info → spillWrite.cycleBegin < info.cycleBegin →
      info.op ≠ spillWrite.op ∧ info.cycleBegin = spillRead.cycleBegin

def IsFound (context : Context) (scheduledOps : List ScheduledOpInfo) (pair : RelocationPair) :
    Prop :=
  ∃ spillWrite spillRead origOp origOpIndex,
    IsRelocationPair context scheduledOps pair spillWrite spillRead origOp origOpIndex

/-- What holds of the search when it has seen the first `count` entries. -/
structure Searched (context : Context) (scheduledOps : List ScheduledOpInfo) (count : Nat)
    (state : RelocationState) : Prop where
  counts : state.context.execOps.map ExecuteOp.resultCount =
    context.execOps.map ExecuteOp.resultCount
  relocated : List.Forall₂ Relocated scheduledOps state.scheduledOps
  found : ∀ pair ∈ state.pairs, IsFound context scheduledOps pair ∧ pair.spillWriteIndex < count
  ascending : state.pairs.Pairwise fun pair later => pair.spillWriteIndex < later.spillWriteIndex

section Relocated

variable {scheduledOps after : List ScheduledOpInfo}

theorem relocated_set (relocated : List.Forall₂ Relocated scheduledOps after) {place : Nat}
    {info entry : ScheduledOpInfo} (stands : scheduledOps[place]? = some info)
    (changed : Relocated info entry) :
    List.Forall₂ Relocated scheduledOps (after.set place entry) := by
  induction relocated generalizing place with
  | nil => exact absurd stands (by simp)
  | cons here rest ih =>
    cases place with
    | zero =>
      obtain rfl := some.inj stands
      exact List.Forall₂.cons changed rest
    | succ place => exact List.Forall₂.cons here (ih stands)

theorem orderedByCycle_relocated (relocated : List.Forall₂ Relocated scheduledOps after)
    (ordered : OrderedByCycle scheduledOps) : OrderedByCycle after := by
  have cycles : after.map ScheduledOpInfo.cycleBegin =
      scheduledOps.map ScheduledOpInfo.cycleBegin := by
    induction relocated with
    | nil => rfl
    | cons here _ ih => rw [map_cons, map_cons, here.cycleBegin, ih (pairwise_cons.mp ordered).2]
  have mapped : (scheduledOps.map ScheduledOpInfo.cycleBegin).Pairwise (· ≤ ·) :=
    pairwise_map.mpr ordered
  rw [← cycles] at mapped
  exact pairwise_map.mp mapped

end Relocated

variable {context : Context} {state : RelocationState}

/-- A pair that is found in the schedule as the search has changed it is one of the schedule. -/
theorem IsRelocationPair.of_relocated {current : Context} {after : List ScheduledOpInfo}
    {pair : RelocationPair} {spillRead origOp : ScheduledOpInfo} {origOpIndex : Nat}
    (counts : current.execOps.map ExecuteOp.resultCount = context.execOps.map ExecuteOp.resultCount)
    (relocated : List.Forall₂ Relocated scheduledOps after)
    (isPair : IsRelocationPair current after pair spillWrite spillRead origOp origOpIndex) :
    IsFound context scheduledOps pair := by
  obtain ⟨write, write_stands, write_same⟩ := Alongside.getElem?_left relocated _ isPair.write
  obtain ⟨read, read_stands, read_same⟩ := Alongside.getElem?_left relocated _ isPair.read
  obtain ⟨original, original_stands, original_same⟩ :=
    Alongside.getElem?_left relocated _ isPair.original
  refine ⟨write, read, original, origOpIndex, ?_⟩
  exact {
    write := write_stands
    read := read_stands
    original := original_stands
    isSpillWrite := write_same.isSpillWrite ▸ isPair.isSpillWrite
    single := by
      have single := isPair.single
      rwa [HasSingleResult, counts, write_same.op] at single
    original_lt := isPair.original_lt
    isOriginalOp := original_same.isOriginalOp ▸ isPair.isOriginalOp
    original_op := by rw [← original_same.op, ← write_same.op, isPair.original_op]
    write_lt := isPair.write_lt
    read_op := by rw [← read_same.op, ← write_same.op, isPair.read_op]
    cycle_lt := by
      rw [← read_same.cycleBegin, ← write_same.cycleBegin]
      exact isPair.cycle_lt
    first := by
      intro place info above below stands late
      obtain ⟨entry, stands, same⟩ := Alongside.getElem?_right relocated place stands
      rw [← same.op, ← same.cycleBegin, ← write_same.op, ← read_same.cycleBegin]
      refine isPair.first place entry above below stands ?_
      rw [same.cycleBegin, write_same.cycleBegin]
      exact late }

theorem Searched.relocate (ordered : OrderedByCycle scheduledOps) {opIndex : Nat}
    {after : RelocationState} (searched : Searched context scheduledOps opIndex state)
    (res : relocate state opIndex = some after) :
    Searched context scheduledOps (opIndex + 1) after := by
  have unchanged : some state = some after → Searched context scheduledOps (opIndex + 1) after := by
    intro same
    obtain rfl := some.inj same
    exact { searched with
      found := fun pair mem => (searched.found pair mem).imp_right lt_succ_of_lt }
  obtain ⟨spillWrite, stands, res⟩ := bind_eq_some_iff.mp res
  split at res
  · rename_i isWrite
    obtain ⟨execOp, exec, res⟩ := bind_eq_some_iff.mp res
    split at res
    · exact unchanged res
    · rename_i single
      split at res
      · exact unchanged res
      · rename_i origOpIndex prevTimeFirstOpIndex original
        split at res
        · exact unchanged res
        · rename_i spillReadIndex read
          obtain ⟨original_lt, origOp, original_stands, original_op, isOriginal⟩ :=
            (findOriginal_spec original).resolve_left (by simp)
          obtain ⟨write_lt, spillRead, read_stands, read_op, cycle_lt, first⟩ :=
            findSpillRead_spec (orderedByCycle_relocated searched.relocated ordered) read
          have isPair : IsRelocationPair state.context state.scheduledOps
              ⟨opIndex, spillReadIndex⟩ spillWrite spillRead origOp origOpIndex := {
            write := stands
            read := read_stands
            original := original_stands
            isSpillWrite := (Bool.and_eq_true_iff.mp isWrite).1
            single := ⟨execOp.resultCount, by rw [getElem?_map, exec]; rfl,
              not_lt.mp single⟩
            original_lt := original_lt
            isOriginalOp := isOriginal
            original_op := original_op
            write_lt := write_lt
            read_op := read_op
            cycle_lt := cycle_lt
            first := first }
          obtain ⟨counts, changed, pairs⟩ := relocatePair_spec res
          obtain ⟨afterOp, same, set⟩ := changed origOp original_stands
          obtain ⟨info, info_stands, info_same⟩ :=
            Alongside.getElem?_left searched.relocated _ original_stands
          refine ⟨counts.trans searched.counts, ?_, ?_, ?_⟩
          · rw [set]
            refine relocated_set searched.relocated info_stands (info_same.trans ⟨same, ?_⟩)
            intro other
            exact absurd isOriginal (by simp [other])
          · intro pair mem
            have cases_pair : pair ∈ state.pairs ∨ pair = ⟨opIndex, spillReadIndex⟩ := by
              rcases pairs with kept | added
              · exact .inl (kept ▸ mem)
              · rw [added] at mem
                simpa using mem
            rcases cases_pair with mem | rfl
            · exact (searched.found pair mem).imp_right lt_succ_of_lt
            · exact ⟨isPair.of_relocated searched.counts searched.relocated, lt_succ_self _⟩
          · rcases pairs with kept | added
            · rw [kept]
              exact searched.ascending
            · rw [added]
              refine pairwise_append.mpr ⟨searched.ascending, pairwise_singleton _ _, ?_⟩
              intro pair mem later isLast
              rw [mem_singleton.mp isLast]
              exact (searched.found pair mem).2
  · exact unchanged res

theorem findRelocations_searched (ordered : OrderedByCycle scheduledOps)
    (res : findRelocations context scheduledOps = some state) :
    Searched context scheduledOps scheduledOps.length state := by
  refine Attempt.foldlM_range (Searched context scheduledOps)
    (fun opIndex _ before after searched run => searched.relocate ordered run) ?_ res
  exact ⟨rfl, forall₂_same.mpr fun info _ => Relocated.refl info, by simp,
    List.Pairwise.nil⟩

/-! ### Schedules with spills -/

def isSpill (info : ScheduledOpInfo) : Bool := info.isSpillWrite || isSpillRead info

/-- The buffer that a spill entry saves or loads. -/
def spilledBuffer (info : ScheduledOpInfo) : Option Buffer :=
  if info.isSpillWrite then info.inputResourceInfo.head?.map IntervalInfo.buffer
  else if isSpillRead info then info.outputResourceInfo.head?.map IntervalInfo.buffer
  else none

/-- Two spill entries of one operation that are about one buffer. -/
def SameSpill (info other : ScheduledOpInfo) : Prop :=
  info.op = other.op ∧ spilledBuffer info = spilledBuffer other

/-- What no two entries of a schedule share: an executor does one thing of an operation at a
time. -/
def slot (info : ScheduledOpInfo) : Nat × EOpType × Nat × QueueType × List Nat :=
  (info.op, info.opType, info.cycleBegin, info.queueType, info.executorInstanceMask)

/-- A schedule with spills, as the scheduler makes it. Its entries are in the order of their
cycles, an operation has one `ORIGINAL`, what is spilled is written before it is read back and not
written again before, and an operation with a single result spills one buffer. -/
structure SpillSchedule (context : Context) (scheduledOps : List ScheduledOpInfo) : Prop where
  ordered : OrderedByCycle scheduledOps
  distinct : (scheduledOps.map slot).Nodup
  original_once : ∀ (place later : Nat) (info other : ScheduledOpInfo),
    scheduledOps[place]? = some info →
    scheduledOps[later]? = some other → info.isOriginalOp = true → other.isOriginalOp = true →
      info.op = other.op → place = later
  written : ∀ (place : Nat) (spillRead : ScheduledOpInfo), scheduledOps[place]? = some spillRead →
    isSpillRead spillRead = true → ∃ (earlier : Nat) (spillWrite : ScheduledOpInfo),
      earlier < place ∧
      scheduledOps[earlier]? = some spillWrite ∧ spillWrite.isSpillWrite = true ∧
      SameSpill spillWrite spillRead ∧ spillWrite.cycleBegin < spillRead.cycleBegin ∧
      ∀ (between : Nat) (info : ScheduledOpInfo), earlier < between → between < place →
        scheduledOps[between]? = some info → isSpill info = true → ¬ SameSpill info spillRead
  alternating : ∀ (place later : Nat) (spillWrite other : ScheduledOpInfo), place < later →
    scheduledOps[place]? = some spillWrite → scheduledOps[later]? = some other →
      spillWrite.isSpillWrite = true → other.isSpillWrite = true → SameSpill spillWrite other →
        ∃ (between : Nat) (spillRead : ScheduledOpInfo), place < between ∧ between < later ∧
          scheduledOps[between]? = some spillRead ∧ isSpillRead spillRead = true ∧
          SameSpill spillRead spillWrite
  single_buffer : ∀ info ∈ scheduledOps, ∀ other ∈ scheduledOps, isSpill info = true →
    isSpill other = true → info.op = other.op → HasSingleResult context info.op →
      spilledBuffer info = spilledBuffer other

variable {info : ScheduledOpInfo}

theorem isOriginalOp_of_isSpill (spill : isSpill info = true) : info.isOriginalOp = false := by
  simp only [isSpill, isSpillRead, ScheduledOpInfo.isSpillWrite, ScheduledOpInfo.isOriginalOp]
    at spill ⊢
  cases kind : info.opType <;> simp [kind] at spill ⊢

theorem isSpill_of_not_isOriginalOp (notOriginal : ¬ info.isOriginalOp = true) :
    isSpill info = true := by
  simp only [isSpill, isSpillRead, ScheduledOpInfo.isSpillWrite, ScheduledOpInfo.isOriginalOp]
    at notOriginal ⊢
  cases kind : info.opType <;> simp [kind] at notOriginal ⊢

theorem isSpill_of_isSpillWrite (isWrite : info.isSpillWrite = true) : isSpill info = true := by
  rw [isSpill, isWrite, Bool.true_or]

theorem isSpill_of_isSpillRead (isRead : isSpillRead info = true) : isSpill info = true := by
  rw [isSpill, isRead, Bool.or_true]

theorem isSpillRead_eq_false (isWrite : info.isSpillWrite = true) : isSpillRead info = false := by
  simp only [isSpillRead, ScheduledOpInfo.isSpillWrite] at isWrite ⊢
  cases kind : info.opType <;> simp [kind] at isWrite ⊢

/-- Every spill read stands behind a spill write of its operation and its buffer. -/
def ReadsFollowWrites (entries : List ScheduledOpInfo) : Prop :=
  ∀ front spillRead rest, entries = front ++ spillRead :: rest → isSpillRead spillRead = true →
    ∃ spillWrite ∈ front, spillWrite.isSpillWrite = true ∧ SameSpill spillWrite spillRead

section Pair

variable {context : Context} {scheduledOps : List ScheduledOpInfo} {pair : RelocationPair}
  {spillWrite spillRead origOp : ScheduledOpInfo} {origOpIndex : Nat}
  (schedule : SpillSchedule context scheduledOps)
  (isPair : IsRelocationPair context scheduledOps pair spillWrite spillRead origOp origOpIndex)
include schedule isPair

theorem IsRelocationPair.isSpill_read : isSpill spillRead = true := by
  refine isSpill_of_not_isOriginalOp fun isOriginal => ?_
  have same := schedule.original_once _ _ _ _ isPair.original isPair.read isPair.isOriginalOp
    isOriginal (by rw [isPair.original_op, isPair.read_op])
  exact absurd (isPair.original_lt.trans isPair.write_lt) (by rw [same]; exact lt_irrefl _)

theorem IsRelocationPair.sameSpill (mem : info ∈ scheduledOps) (spill : isSpill info = true)
    (op : info.op = spillWrite.op) : SameSpill info spillWrite :=
  ⟨op, (schedule.single_buffer _ (mem_of_getElem? isPair.write) _ mem
    (isSpill_of_isSpillWrite isPair.isSpillWrite) spill op.symm isPair.single).symm⟩

/-- The entry that is found for a spill write is a spill read: another spill write of the operation
would have a spill read before it. -/
theorem IsRelocationPair.isSpillRead_read : isSpillRead spillRead = true := by
  by_contra notRead
  have isWrite : spillRead.isSpillWrite = true := by
    have spill := isPair.isSpill_read schedule
    rw [isSpill, Bool.or_eq_true] at spill
    exact spill.resolve_right notRead
  have same := isPair.sameSpill schedule (mem_of_getElem? isPair.read)
    (isPair.isSpill_read schedule) isPair.read_op
  obtain ⟨between, readBack, above, below, stands, isRead, same_read⟩ :=
    schedule.alternating _ _ _ _ isPair.write_lt isPair.write isPair.read isPair.isSpillWrite
      isWrite ⟨same.1.symm, same.2.symm⟩
  obtain ⟨earlier, written, _, written_stands, _, _, cycle, alone⟩ :=
    schedule.written _ _ stands isRead
  -- The write of that spill read does not stand before the one of the pair.
  have not_before : pair.spillWriteIndex ≤ earlier := by
    by_contra before
    exact alone _ _ (not_le.mp before) above isPair.write
      (isSpill_of_isSpillWrite isPair.isSpillWrite) ⟨same_read.1.symm, same_read.2.symm⟩
  have cycle_le : spillWrite.cycleBegin ≤ written.cycleBegin := by
    rcases not_before.eq_or_lt with rfl | later
    · rw [isPair.write] at written_stands
      rw [some.inj written_stands]
    · obtain ⟨bound, rfl⟩ := List.getElem?_eq_some_iff.mp isPair.write
      obtain ⟨later_bound, rfl⟩ := List.getElem?_eq_some_iff.mp written_stands
      exact pairwise_iff_getElem.mp schedule.ordered _ _ bound later_bound later
  exact (isPair.first between readBack above below stands (cycle_le.trans_lt cycle)).1 same_read.1

theorem IsRelocationPair.read_eq {place : Nat} {readBack : ScheduledOpInfo}
    (above : pair.spillWriteIndex < place) (stands : scheduledOps[place]? = some readBack)
    (same : SameSpill spillWrite readBack) (cycle : spillWrite.cycleBegin < readBack.cycleBegin)
    (alone : ∀ between info, pair.spillWriteIndex < between → between < place →
      scheduledOps[between]? = some info → isSpill info = true → ¬ SameSpill info readBack) :
    place = pair.spillReadIndex := by
  rcases lt_trichotomy place pair.spillReadIndex with before | equal | behind
  · exact absurd same.1.symm (isPair.first place readBack above before stands cycle).1
  · exact equal
  · have spill := isPair.sameSpill schedule (mem_of_getElem? isPair.read)
      (isPair.isSpill_read schedule) isPair.read_op
    exact absurd ⟨spill.1.trans same.1, spill.2.trans same.2⟩
      (alone _ _ isPair.write_lt behind isPair.read (isPair.isSpill_read schedule))

end Pair

/-! ### What is removed -/

/-- No spill write of a later pair stands before the spill read of a pair. -/
def PairsApart (pairs : List RelocationPair) : Prop :=
  pairs.Pairwise fun pair later => pair.spillReadIndex < later.spillWriteIndex

variable {pairs : List RelocationPair} {before after : List ScheduledOpInfo}

theorem mem_operationIndexesToRemove {place : Nat} :
    place ∈ operationIndexesToRemove pairs ↔
      ∃ pair ∈ pairs, place = pair.spillWriteIndex ∨ place = pair.spillReadIndex := by
  simp [operationIndexesToRemove]

/-- The indexes descend from the last one found on exactly when the pairs stand apart. -/
theorem descending_iff_pairsApart
    (forward : ∀ pair ∈ pairs, pair.spillWriteIndex < pair.spillReadIndex) :
    (operationIndexesToRemove pairs).reverse.Pairwise (· > ·) ↔ PairsApart pairs := by
  rw [pairwise_reverse, operationIndexesToRemove, pairwise_flatMap, PairsApart]
  constructor
  · rintro ⟨-, across⟩
    exact across.imp fun each => each _ (by simp) _ (by simp)
  · intro apart
    refine ⟨fun pair mem => by simpa using forward pair mem, ?_⟩
    refine (List.Pairwise.and_mem.mp apart).imp ?_
    rintro pair later ⟨mem, member_later, before⟩ first inside second inside_later
    have pair_forward := forward pair mem
    have later_forward := forward later member_later
    simp only [mem_cons, not_mem_nil, or_false] at inside inside_later
    omega

theorem map_slot_relocated (relocated : List.Forall₂ Relocated before after) :
    after.map slot = before.map slot := by
  induction relocated with
  | nil => rfl
  | cons here _ ih =>
    rw [map_cons, map_cons, ih]
    refine congrArg (· :: _) ?_
    rw [here.1]
    rfl

theorem map_op_originals_relocated (relocated : List.Forall₂ Relocated before after) :
    (after.filter ScheduledOpInfo.isOriginalOp).map ScheduledOpInfo.op =
      (before.filter ScheduledOpInfo.isOriginalOp).map ScheduledOpInfo.op := by
  induction relocated with
  | nil => rfl
  | cons here _ ih =>
    rw [filter_cons, filter_cons, here.isOriginalOp]
    split
    · rw [map_cons, map_cons, here.op, ih]
    · exact ih

section Removal

variable {context : Context} {scheduledOps : List ScheduledOpInfo} {state : RelocationState}

theorem Searched.bounds (searched : Searched context scheduledOps scheduledOps.length state) :
    ∀ place ∈ (operationIndexesToRemove state.pairs).reverse,
    place < state.scheduledOps.length := by
  intro place mem
  obtain ⟨pair, inside, same⟩ := mem_operationIndexesToRemove.mp (mem_reverse.mp mem)
  obtain ⟨spillWrite, spillRead, origOp, origOpIndex, isPair⟩ := (searched.found pair inside).1
  rw [← searched.relocated.length_eq]
  rcases same with rfl | rfl
  · exact (List.getElem?_eq_some_iff.mp isPair.write).1
  · exact (List.getElem?_eq_some_iff.mp isPair.read).1

variable (schedule : SpillSchedule context scheduledOps)
  (searched : Searched context scheduledOps scheduledOps.length state)
include schedule searched

theorem Searched.isSpill_of_removed {place : Nat} {entry : ScheduledOpInfo}
    (removed : place ∈ operationIndexesToRemove state.pairs)
    (stands : state.scheduledOps[place]? = some entry) : isSpill entry = true := by
  obtain ⟨pair, inside, same⟩ := mem_operationIndexesToRemove.mp removed
  obtain ⟨spillWrite, spillRead, origOp, origOpIndex, isPair⟩ := (searched.found pair inside).1
  obtain ⟨info, info_stands, relocated⟩ := Alongside.getElem?_left searched.relocated _ stands
  have spill : isSpill info = true := by
    rcases same with rfl | rfl
    · rw [isPair.write] at info_stands
      exact some.inj info_stands ▸ isSpill_of_isSpillWrite isPair.isSpillWrite
    · rw [isPair.read] at info_stands
      exact some.inj info_stands ▸ isPair.isSpill_read schedule
  rw [relocated.2 (isOriginalOp_of_isSpill spill)]
  exact spill

theorem Searched.readsFollowWrites :
    ReadsFollowWrites (deleteAt (operationIndexesToRemove state.pairs) state.scheduledOps) := by
  intro front spillRead rest split isRead
  obtain ⟨place, stands, kept, in_front⟩ := mem_front_of_deleteAt split
  obtain ⟨info, info_stands, relocated⟩ := Alongside.getElem?_left searched.relocated _ stands
  have same_info : spillRead = info := by
    refine relocated.2 ?_
    rw [← relocated.isOriginalOp]
    exact isOriginalOp_of_isSpill (isSpill_of_isSpillRead isRead)
  subst same_info
  obtain ⟨earlier, spillWrite, before, write_stands, isWrite, same, cycle, alone⟩ :=
    schedule.written place spillRead info_stands isRead
  obtain ⟨entry, entry_stands, entry_same⟩ :=
    Alongside.getElem?_right searched.relocated _ write_stands
  obtain rfl := entry_same.2 (isOriginalOp_of_isSpill (isSpill_of_isSpillWrite isWrite))
  refine ⟨_, in_front earlier _ before (fun removed => ?_) entry_stands, isWrite, same⟩
  -- The spill write of the pair that is removed would leave its spill read removed, too.
  obtain ⟨pair, inside, which⟩ := mem_operationIndexesToRemove.mp removed
  obtain ⟨written, readBack, origOp, origOpIndex, isPair⟩ := (searched.found pair inside).1
  rcases which with rfl | rfl
  · rw [isPair.write] at write_stands
    obtain rfl := some.inj write_stands
    refine kept (mem_operationIndexesToRemove.mpr ⟨pair, inside, .inr ?_⟩)
    exact isPair.read_eq schedule before info_stands same cycle alone
  · rw [isPair.read] at write_stands
    have other := isPair.isSpillRead_read schedule
    rw [some.inj write_stands, isSpillRead_eq_false isWrite] at other
    exact absurd other (by simp)

theorem Searched.originals :
    ((deleteAt (operationIndexesToRemove state.pairs) state.scheduledOps).filter
        ScheduledOpInfo.isOriginalOp).map ScheduledOpInfo.op =
      (scheduledOps.filter ScheduledOpInfo.isOriginalOp).map ScheduledOpInfo.op := by
  rw [filter_deleteAt fun place removed entry stands =>
    isOriginalOp_of_isSpill (searched.isSpill_of_removed schedule removed stands)]
  exact map_op_originals_relocated searched.relocated

end Removal

/-- The schedule after the optimisation is the one before it without the given pairs, with other
ranges for relocated outputs: what is read back is still written before, and no operation is
lost. -/
structure RemovesPairs (before after : List ScheduledOpInfo) (pairs : List RelocationPair) :
    Prop where
  exact : ∃ relocated, List.Forall₂ Relocated before relocated ∧
    after = deleteAt (operationIndexesToRemove pairs) relocated
  reads : ReadsFollowWrites after
  originals : (after.filter ScheduledOpInfo.isOriginalOp).map ScheduledOpInfo.op =
    (before.filter ScheduledOpInfo.isOriginalOp).map ScheduledOpInfo.op

/-- The optimisation removes the pairs that it finds exactly when they stand apart. -/
theorem removeComputeOpRelocationSpills_removesPairs_iff (context : Context)
    (scheduledOps : List ScheduledOpInfo) (state : RelocationState)
    (schedule : SpillSchedule context scheduledOps)
    (found : findRelocations context scheduledOps = some state) :
    (∃ after, removeComputeOpRelocationSpills context scheduledOps = some (state.context, after) ∧
      RemovesPairs scheduledOps after state.pairs) ↔ PairsApart state.pairs := by
  have searched := findRelocations_searched schedule.ordered found
  have forward : ∀ pair ∈ state.pairs, pair.spillWriteIndex < pair.spillReadIndex := by
    intro pair mem
    obtain ⟨_, _, _, _, isPair⟩ := (searched.found pair mem).1
    exact isPair.write_lt
  have distinct : (state.scheduledOps.map slot).Nodup := by
    rw [map_slot_relocated searched.relocated]
    exact schedule.distinct
  have reversed : ∀ list : List ScheduledOpInfo,
      deleteAt (operationIndexesToRemove state.pairs).reverse list =
        deleteAt (operationIndexesToRemove state.pairs) list := by
    intro list
    simp only [deleteAt, mem_reverse]
  have erases : ∀ after, removeComputeOpRelocationSpills context scheduledOps =
      some (state.context, after) ↔
        eraseEach (operationIndexesToRemove state.pairs).reverse state.scheduledOps =
          some after := by
    intro after
    rw [removeComputeOpRelocationSpills, found, bind_some, map_eq_some_iff]
    simp
  rw [← descending_iff_pairsApart forward]
  constructor
  · rintro ⟨after, res, ⟨relocated, same, rfl⟩, -, -⟩
    have slots : relocated.map slot = state.scheduledOps.map slot := by
      rw [map_slot_relocated same, map_slot_relocated searched.relocated]
    refine (eraseEach_eq_deleteAt_iff ?_ distinct).mp ?_
    · rw [length_map]
      exact searched.bounds
    · rw [eraseEach_map, (erases _).mp res, map_some, ← slots, deleteAt_map, reversed]
  · intro descending
    have erased := (eraseEach_eq_deleteAt_iff searched.bounds distinct.of_map).mpr descending
    rw [reversed] at erased
    exact ⟨_, (erases _).mpr erased, ⟨_, searched.relocated, rfl⟩,
      searched.readsFollowWrites schedule, searched.originals schedule⟩

/-! ### Two outputs that are relocated at once -/

def relocatedBuffer (position : Nat) : Buffer where
  position := position
  size := 4
  alignment := 1
  multipleDmaPortsNeeded := false
  usedByConcatView := false
  dmaCost := 10
  otherUsers := 0
  size_pos := by decide
  alignment_pos := by decide

def relocatedLayer (position : Nat) : InnerOp where
  isPureViewOp := false
  isLayerOp := true
  isNCEClusterTask := true
  isInplace := false
  operands := [.buffer (relocatedBuffer position)]
  outputPositions := [0]
  results := [.other position]

def relocatedContext : Context where
  memKind := .cmxNN
  execOps := [⟨[], [relocatedLayer 0], 1⟩, ⟨[], [relocatedLayer 1], 1⟩, ⟨[], [], 0⟩]
  types _ := .ndType .cmxNN 4
  aliasInfo := {
    memKind := .cmxNN
    roots := fun
      | .buffer buffer => some [.buffer buffer]
      | .bodyResult opIdx _ => some [.buffer (relocatedBuffer opIdx)]
      | .other position => some [.buffer (relocatedBuffer position)]
    allAliases := fun
      | .buffer buffer => some [.buffer buffer, .bodyResult buffer.position 0]
      | _ => none
    traversal := id }
  handler := ⟨fun _ => none, [], [], 0, false⟩
  nextPosition := 2

def relocatedEntry (op : Nat) (opType : EOpType) (cycle address : Nat) : ScheduledOpInfo where
  op := op
  opType := opType
  cycleBegin := cycle
  cycleEnd := cycle + 10
  freeCmx := 0
  isDataOp := false
  inputResourceInfo :=
    if opType = .implicitSpillWriteOp then [⟨address, address + 4, relocatedBuffer op⟩] else []
  outputResourceInfo :=
    if opType = .implicitSpillWriteOp then [] else [⟨address, address + 4, relocatedBuffer op⟩]
  queueType := ⟨if opType = .originalOp then .dpu else .dmaNN, op⟩
  executorInstanceMask := [op]

/-- The reader of both buffers. -/
def relocatedReader : ScheduledOpInfo where
  op := 2
  opType := .originalOp
  cycleBegin := 30
  cycleEnd := 40
  freeCmx := 0
  isDataOp := false
  inputResourceInfo := [⟨8, 12, relocatedBuffer 0⟩, ⟨12, 16, relocatedBuffer 1⟩]
  outputResourceInfo := []
  queueType := ⟨.dpu, 0⟩
  executorInstanceMask := [0]

/-- Both outputs are written by two ports at cycle 10 and read back at cycle 20. -/
def crossedSpills : List ScheduledOpInfo :=
  [relocatedEntry 0 .originalOp 0 0, relocatedEntry 1 .originalOp 0 4,
    relocatedEntry 0 .implicitSpillWriteOp 10 0, relocatedEntry 1 .implicitSpillWriteOp 10 4,
    relocatedEntry 0 .implicitSpillReadOp 20 8, relocatedEntry 1 .implicitSpillReadOp 20 12,
    relocatedReader]

def singleSpill : List ScheduledOpInfo :=
  [relocatedEntry 0 .originalOp 0 0, relocatedEntry 1 .originalOp 0 12,
    relocatedEntry 0 .implicitSpillWriteOp 10 0, relocatedEntry 0 .implicitSpillReadOp 20 8,
    relocatedReader]

theorem spillSchedule_of_entries (ordered : OrderedByCycle scheduledOps)
    (distinct : (scheduledOps.map slot).Nodup)
    (original_once : ∀ entry ∈ scheduledOps.zipIdx, ∀ other ∈ scheduledOps.zipIdx,
      entry.1.isOriginalOp = true → other.1.isOriginalOp = true → entry.1.op = other.1.op →
        entry.2 = other.2) (written : ∀ entry ∈ scheduledOps.zipIdx, isSpillRead entry.1 = true →
      ∃ write ∈ scheduledOps.zipIdx, write.2 < entry.2 ∧ write.1.isSpillWrite = true ∧
        (write.1.op = entry.1.op ∧ spilledBuffer write.1 = spilledBuffer entry.1) ∧
        write.1.cycleBegin < entry.1.cycleBegin ∧
        ∀ between ∈ scheduledOps.zipIdx, write.2 < between.2 → between.2 < entry.2 →
          isSpill between.1 = true →
            ¬ (between.1.op = entry.1.op ∧ spilledBuffer between.1 = spilledBuffer entry.1))
    (write_once : ∀ entry ∈ scheduledOps.zipIdx, ∀ other ∈ scheduledOps.zipIdx,
      entry.2 < other.2 → entry.1.isSpillWrite = true → other.1.isSpillWrite = true →
        ¬ (entry.1.op = other.1.op ∧ spilledBuffer entry.1 = spilledBuffer other.1))
    (single_buffer : ∀ entry ∈ scheduledOps, ∀ other ∈ scheduledOps, isSpill entry = true →
      isSpill other = true → entry.op = other.op → spilledBuffer entry = spilledBuffer other) :
    SpillSchedule context scheduledOps where
  ordered := ordered
  distinct := distinct
  original_once place later info other stands stands_later isOriginal isOriginal_later op :=
    original_once (info, place) (mk_mem_zipIdx_iff_getElem?.mpr stands) (other, later)
      (mk_mem_zipIdx_iff_getElem?.mpr stands_later) isOriginal isOriginal_later op
  written place spillRead stands isRead := by
    obtain ⟨⟨spillWrite, earlier⟩, mem, before, isWrite, same, cycle, alone⟩ :=
      written (spillRead, place) (mk_mem_zipIdx_iff_getElem?.mpr stands) isRead
    refine ⟨earlier, spillWrite, before, mk_mem_zipIdx_iff_getElem?.mp mem, isWrite, same,
      cycle, fun between info above below found spill => ?_⟩
    exact alone (info, between) (mk_mem_zipIdx_iff_getElem?.mpr found) above below spill
  alternating place later spillWrite other before stands stands_later isWrite isWrite_later same :=
    absurd same (write_once (spillWrite, place) (mk_mem_zipIdx_iff_getElem?.mpr stands)
      (other, later) (mk_mem_zipIdx_iff_getElem?.mpr stands_later) before isWrite
      isWrite_later)
  single_buffer info mem other member_other spill spill_other op _ :=
    single_buffer info mem other member_other spill spill_other op

/-- With both outputs spilled at once, one spill read stays without its spill write, and the reader
of the outputs is erased in its place. -/
theorem crossedSpills_not_removesPairs :
    SpillSchedule relocatedContext crossedSpills ∧
      ∃ state after, findRelocations relocatedContext crossedSpills = some state ∧
        state.pairs = [⟨2, 4⟩, ⟨3, 5⟩] ∧
        removeComputeOpRelocationSpills relocatedContext crossedSpills =
          some (state.context, after) ∧
        ¬ RemovesPairs crossedSpills after state.pairs := by
  refine ⟨spillSchedule_of_entries (by unfold OrderedByCycle; decide) (by decide) (by decide)
    (by decide) (by decide) (by decide), ?_⟩
  have pairs : (findRelocations relocatedContext crossedSpills).map RelocationState.pairs =
      some [⟨2, 4⟩, ⟨3, 5⟩] := by decide
  obtain ⟨state, found, same⟩ := map_eq_some_iff.mp pairs
  have left : (removeComputeOpRelocationSpills relocatedContext crossedSpills).map
      (fun res => (res.2.filter ScheduledOpInfo.isOriginalOp).map ScheduledOpInfo.op) =
        some [0, 1] := by decide
  obtain ⟨⟨context, after⟩, removed, ops⟩ := map_eq_some_iff.mp left
  have context_eq : context = state.context := by
    rw [removeComputeOpRelocationSpills, found, bind_some] at removed
    obtain ⟨_, -, res⟩ := map_eq_some_iff.mp removed
    exact (congrArg fst res).symm
  refine ⟨state, after, found, same, context_eq ▸ removed, fun removes => ?_⟩
  have originals := removes.originals
  rw [ops] at originals
  exact absurd originals (by decide)

theorem singleSpill_removesPairs :
    ∃ state after, findRelocations relocatedContext singleSpill = some state ∧
      removeComputeOpRelocationSpills relocatedContext singleSpill =
        some (state.context, after) ∧
      RemovesPairs singleSpill after [⟨2, 3⟩] := by
  have pairs : (findRelocations relocatedContext singleSpill).map RelocationState.pairs =
      some [⟨2, 3⟩] := by decide
  obtain ⟨state, found, same⟩ := map_eq_some_iff.mp pairs
  have schedule : SpillSchedule relocatedContext singleSpill :=
    spillSchedule_of_entries (by unfold OrderedByCycle; decide) (by decide) (by decide) (by decide)
      (by decide) (by decide)
  have apart : PairsApart state.pairs := by
    rw [same]
    exact pairwise_singleton _ _
  obtain ⟨after, removed, removes⟩ := (removeComputeOpRelocationSpills_removesPairs_iff
    relocatedContext singleSpill state schedule found).mpr apart
  exact ⟨state, after, found, removed, same ▸ removes⟩

end NpuPlugin.FeasibleMemorySchedulerSpilling
