/-
This file models the two passes that tell each barrier which barrier uses its physical id next, and
proves when the pass that computes the barriers does so.
-/

import Mathlib.Data.List.Nodup
import NpuPlugin.Library.RingBuffer

namespace NpuPlugin.BarrierComputation

open Function Int KeyedQueues
open List hiding length_take getElem?_take

/-- `VPUMI40XX::ConfigureBarrierOp`, with its virtual id and its physical id. -/
structure ConfigureBarrierOp where
  vid : Nat
  id : Nat
deriving DecidableEq, Repr

/-- The barriers in the order of their virtual ids, and the number of physical ids. -/
structure Program where
  barriers : List ConfigureBarrierOp
  MAX_PID : Nat
  ascending : barriers.Pairwise fun op later => op.vid < later.vid
  id_lt : ∀ op ∈ barriers, op.id < MAX_PID

/-- Each barrier takes the virtual id in front of its queue, -1 when there is none. -/
def takeNextSameIds (nextSameID : Nat → List Nat) (barriers : List ConfigureBarrierOp) : List Int :=
  (take ConfigureBarrierOp.id nextSameID barriers).map fun vid => vid.elim (-1) Int.ofNat

namespace Program

variable (prog : Program)

def setNextSameID : List Int :=
  let nextSameID := prog.barriers.foldl (fun nextSameID op =>
    if prog.MAX_PID ≤ op.vid then push nextSameID op.id op.vid else nextSameID) fun _ => []
  takeNextSameIds nextSameID prog.barriers

/-- The queues, and which physical ids were seen. -/
structure Touched where
  nextSameID : Nat → List Nat
  touched : Nat → Bool

def skipFirst (state : Touched) (op : ConfigureBarrierOp) : Touched :=
  -- need to skip the first
  if state.touched op.id then { state with nextSameID := push state.nextSameID op.id op.vid }
  else { state with touched := Function.update state.touched op.id true }

/-- `NextSameIdAssignmentPass::safeRunOnFunc` -/
def nextSameIdAssignment : List Int :=
  takeNextSameIds (prog.barriers.foldl skipFirst ⟨fun _ => [], fun _ => false⟩).nextSameID
    prog.barriers

/-! ### The next barrier with the same physical id -/

/-- The smallest later virtual id with the same physical id, or -1 if there is none. -/
def IsNextSameId (op : ConfigureBarrierOp) (nextSameId : Int) : Prop :=
  (nextSameId = -1 ∧ ∀ other ∈ prog.barriers, other.id = op.id → ¬ op.vid < other.vid) ∨
    ∃ next ∈ prog.barriers, nextSameId = next.vid ∧ next.id = op.id ∧ op.vid < next.vid ∧
      ∀ other ∈ prog.barriers, other.id = op.id → op.vid < other.vid → next.vid ≤ other.vid

/-- Each barrier gets the next one. -/
def AllNext (nextSameIds : List Int) : Prop :=
  List.Forall₂ prog.IsNextSameId prog.barriers nextSameIds

/-- The barriers with a physical id. -/
def withId (id : Nat) : List ConfigureBarrierOp := prog.barriers.filter fun op => op.id = id

/-- The place of a barrier among those with its physical id. -/
def rank (place id : Nat) : Nat := (prog.barriers.take place).countP fun op => op.id = id

variable {prog}

theorem pairwise_withId (id : Nat) : (prog.withId id).Pairwise fun op later => op.vid < later.vid :=
  prog.ascending.filter _

variable {op : ConfigureBarrierOp} {id : Nat} (nextSameID : Nat → List Nat)

theorem mem_withId : op ∈ prog.withId id ↔ op ∈ prog.barriers ∧ op.id = id := by
  rw [withId, mem_filter, decide_eq_true_eq]

theorem getElem?_withId {place : Nat} (stands : prog.barriers[place]? = some op) :
    (prog.withId op.id)[prog.rank place op.id]? = some op := by
  obtain ⟨inside, here⟩ := List.getElem?_eq_some_iff.mp stands
  have split := (take_append_drop place prog.barriers).symm
  rw [drop_eq_getElem_cons inside, here] at split
  unfold withId rank
  rw [countP_eq_length_filter]
  nth_rewrite 1 [split]
  rw [filter_append, @List.filter_cons_of_pos _ _ op _ (decide_eq_true rfl),
    getElem?_append_right le_rfl, Nat.sub_self]
  rfl

theorem getElem?_takeNextSameIds (place : Nat) :
    (takeNextSameIds nextSameID prog.barriers)[place]? = prog.barriers[place]?.map fun op =>
      (nextSameID op.id)[prog.rank place op.id]?.elim (-1) Int.ofNat := by
  rw [takeNextSameIds, getElem?_map, getElem?_take, Option.map_map]
  rfl

theorem length_takeNextSameIds :
    (takeNextSameIds nextSameID prog.barriers).length = prog.barriers.length := by
  rw [takeNextSameIds, length_map, length_take]

theorem vid_lt_iff {rank index : Nat} {other : ConfigureBarrierOp}
    (stands : (prog.withId id)[rank]? = some op)
    (found : (prog.withId id)[index]? = some other) : op.vid < other.vid ↔ rank < index := by
  have ascending := pairwise_iff_getElem.mp (@pairwise_withId prog id)
  obtain ⟨inside, rfl⟩ := List.getElem?_eq_some_iff.mp stands
  obtain ⟨within, rfl⟩ := List.getElem?_eq_some_iff.mp found
  rcases Nat.lt_trichotomy rank index with below | equal | above
  · exact iff_of_true (ascending _ _ inside within below) below
  · subst equal
    exact iff_of_false (Nat.lt_irrefl _) (Nat.lt_irrefl _)
  · exact iff_of_false (Nat.lt_asymm (ascending _ _ within inside above)) (Nat.lt_asymm above)

theorem isNextSameId_iff {rank : Nat} {nextSameId : Int}
    (stands : (prog.withId op.id)[rank]? = some op) :
    prog.IsNextSameId op nextSameId ↔ nextSameId =
      ((prog.withId op.id)[rank + 1]?.map ConfigureBarrierOp.vid).elim (-1) Int.ofNat := by
  have place : ∀ other ∈ prog.barriers, other.id = op.id →
      ∃ index, (prog.withId op.id)[index]? = some other := fun other mem same =>
    getElem?_of_mem (mem_withId.mpr ⟨mem, same⟩)
  cases behind : (prog.withId op.id)[rank + 1]? with
  | none =>
    have last : ∀ other ∈ prog.barriers, other.id = op.id → ¬ op.vid < other.vid := by
      intro other mem same later
      obtain ⟨index, found⟩ := place other mem same
      have inside := (List.getElem?_eq_some_iff.mp found).1
      have above := (vid_lt_iff stands found).mp later
      have beyond := Nat.le_trans (getElem?_eq_none_iff.mp behind) above
      exact absurd inside beyond.not_gt
    constructor
    · rintro (⟨none, -⟩ | ⟨next, mem, -, same, later, -⟩)
      · exact none
      · exact absurd later (last next mem same)
    · exact fun none => .inl ⟨none, last⟩
  | some next =>
    obtain ⟨mem, same⟩ := mem_withId.mp (mem_of_getElem? behind)
    have later : op.vid < next.vid := (vid_lt_iff stands behind).mpr (Nat.lt_succ_self _)
    have first : ∀ other ∈ prog.barriers, other.id = op.id → op.vid < other.vid →
        next.vid ≤ other.vid := by
      intro other inProgram equal above
      obtain ⟨index, found⟩ := place other inProgram equal
      have beyond := (vid_lt_iff stands found).mp above
      exact not_lt.mp fun less => absurd ((vid_lt_iff found behind).mp less) (Nat.not_lt.mpr beyond)
    constructor
    · rintro (⟨-, none⟩ | ⟨other, inProgram, eq, equal, above, least⟩)
      · exact absurd later (none next mem same)
      · rw [eq, Nat.le_antisymm (least next mem same later) (first other inProgram equal above)]
        rfl
    · exact fun eq => .inr ⟨next, mem, eq, same, later, first⟩

/-- The barriers get the next ones from queues that have, for each of them, what stands behind it
among the barriers with its physical id. -/
theorem allNext_takeNextSameIds_iff {nextSameID : Nat → List Nat} :
    prog.AllNext (takeNextSameIds nextSameID prog.barriers) ↔
      ∀ place op, prog.barriers[place]? = some op →
        (nextSameID op.id)[prog.rank place op.id]? =
          (prog.withId op.id)[prog.rank place op.id + 1]?.map ConfigureBarrierOp.vid := by
  have injective : ∀ first second : Option Nat,
      first.elim (-1 : Int) ofNat = second.elim (-1) ofNat ↔ first = second := by
    intro first second
    cases first <;> cases second <;> simp [eq_comm, ofNat_inj]
  have each : ∀ {place op}, prog.barriers[place]? = some op → ∀ {nextSameId},
      (takeNextSameIds nextSameID prog.barriers)[place]? = some nextSameId →
      (prog.IsNextSameId op nextSameId ↔ (nextSameID op.id)[prog.rank place op.id]? =
        (prog.withId op.id)[prog.rank place op.id + 1]?.map ConfigureBarrierOp.vid) := by
    intro place op stands nextSameId taken
    rw [getElem?_takeNextSameIds, stands] at taken
    rw [isNextSameId_iff (getElem?_withId stands), ← injective]
    exact Option.some.inj taken ▸ Iff.rfl
  unfold AllNext
  rw [forall₂_iff_get]
  constructor
  · rintro ⟨length, next⟩ place op stands
    obtain ⟨inside, here⟩ := List.getElem?_eq_some_iff.mp stands
    have within : place < (takeNextSameIds nextSameID prog.barriers).length := length ▸ inside
    refine (each stands (getElem?_eq_getElem within)).mp ?_
    rw [← here]
    exact next place inside within
  · refine fun same => ⟨(length_takeNextSameIds _).symm, fun place inside within => ?_⟩
    have stands := getElem?_eq_getElem inside
    exact (each stands (getElem?_eq_getElem within)).mpr (same place _ stands)

/-! ### The queues of both passes -/

theorem foldl_skipFirst (barriers : List ConfigureBarrierOp) (state : Touched) (id : Nat) :
    (barriers.foldl skipFirst state).nextSameID id = state.nextSameID id ++
      ((barriers.filter fun op => op.id = id).drop (if state.touched id then 0 else 1)).map
        ConfigureBarrierOp.vid := by
  induction barriers generalizing state with
  | nil => simp
  | cons op rest ih =>
    rw [foldl_cons, ih]
    unfold skipFirst
    by_cases same : op.id = id
    · subst same
      cases seen : state.touched op.id with
      | true => simp [push_self, seen]
      | false => simp [update_self]
    · have distinct : id ≠ op.id := Ne.symm same
      split
      · simp [push_other distinct, same]
      · simp [update_of_ne distinct, same]

theorem allNext_nextSameIdAssignment : prog.AllNext prog.nextSameIdAssignment := by
  refine allNext_takeNextSameIds_iff.mpr fun place op _ => ?_
  rw [foldl_skipFirst, ← getElem?_map]
  simp [withId, Nat.add_comm]

/-- The barriers with a physical id whose virtual id is below the number of physical ids. -/
def initial (prog : Program) (id : Nat) : List ConfigureBarrierOp :=
  (prog.withId id).filter fun op => op.vid < prog.MAX_PID

variable {barriers : List ConfigureBarrierOp}

theorem filter_eq_drop (count : Nat)
    (ascending : barriers.Pairwise fun op later => op.vid < later.vid) :
    barriers.filter (fun op => decide (count ≤ op.vid)) =
      barriers.drop (barriers.filter fun op => op.vid < count).length := by
  induction barriers with
  | nil => rfl
  | cons op rest ih =>
    obtain ⟨above, later⟩ := pairwise_cons.mp ascending
    by_cases below : op.vid < count
    · simp [below, below.not_ge, ih later]
    · have none : rest.filter (fun op => decide (op.vid < count)) = [] :=
        filter_eq_nil_iff.mpr fun other mem => by
          have := above other mem
          simp; omega
      have all : rest.filter (fun op => decide (count ≤ op.vid)) = rest :=
        filter_eq_self.mpr fun other mem => by
          have := above other mem
          simp; omega
      simp [below, not_lt.mp below, none, all]

theorem queue_setNextSameID (id : Nat) :
    prog.barriers.foldl (fun nextSameID op => if prog.MAX_PID ≤ op.vid then
        push nextSameID op.id op.vid else nextSameID) (fun _ => []) id =
      ((prog.withId id).drop (prog.initial id).length).map ConfigureBarrierOp.vid := by
  have pushed := foldl_push ConfigureBarrierOp.id (fun op => decide (prog.MAX_PID ≤ op.vid))
    ConfigureBarrierOp.vid prog.barriers (fun _ => []) id
  simp only [decide_eq_true_eq] at pushed
  rw [pushed, nil_append, initial, ← filter_eq_drop _ (pairwise_withId id), withId, filter_filter]
  simp only [Bool.and_comm]

theorem drop_one_iff {initial : Nat}
    (ascending : barriers.Pairwise fun op later => op.vid < later.vid) (occupied : barriers ≠ [])
    (bound : initial ≤ barriers.length) :
    (∀ rank < barriers.length, (barriers.drop initial)[rank]?.map ConfigureBarrierOp.vid =
      barriers[rank + 1]?.map ConfigureBarrierOp.vid) ↔ initial = 1 := by
  constructor
  · intro all
    have first := all 0 (length_pos_iff.mpr occupied)
    rw [getElem?_drop, Nat.add_zero, Nat.zero_add] at first
    have pos := length_pos_iff.mpr occupied
    by_cases second : 1 < barriers.length
    · rw [getElem?_eq_getElem second, Option.map_some, Option.map_eq_some_iff] at first
      obtain ⟨other, found, same⟩ := first
      obtain ⟨inside, rfl⟩ := List.getElem?_eq_some_iff.mp found
      have below := pairwise_iff_getElem.mp ascending
      rcases Nat.lt_trichotomy initial 1 with less | equal | more
      · exact absurd same (below _ _ inside second less).ne
      · exact equal
      · exact absurd same (below _ _ second inside more).ne'
    · rw [getElem?_eq_none (not_lt.mp second), Option.map_none, Option.map_eq_none_iff,
        List.getElem?_eq_none_iff] at first
      omega
  · rintro rfl rank -
    rw [getElem?_drop, Nat.add_comm]

theorem rightUnique_isNextSameId : Relator.RightUnique prog.IsNextSameId := by
  rintro op first second (⟨rfl, none⟩ | ⟨next, mem, rfl, same, later, least⟩)
    (⟨rfl, noneToo⟩ | ⟨other, inProgram, rfl, equal, above, smallest⟩)
  · rfl
  · exact absurd above (none other inProgram equal)
  · exact absurd later (noneToo next mem same)
  · exact congrArg ofNat
      (Nat.le_antisymm (least other inProgram equal above) (smallest next mem same later))

theorem allNext_setNextSameID_iff : prog.AllNext prog.setNextSameID ↔
    ∀ op ∈ prog.barriers, (prog.initial op.id).length = 1 := by
  have perId : ∀ op ∈ prog.barriers,
      (∀ rank < (prog.withId op.id).length,
        ((prog.withId op.id).drop (prog.initial op.id).length)[rank]?.map
          ConfigureBarrierOp.vid = (prog.withId op.id)[rank + 1]?.map ConfigureBarrierOp.vid) ↔
        (prog.initial op.id).length = 1 := fun op mem =>
    drop_one_iff (pairwise_withId op.id) (ne_nil_of_mem (mem_withId.mpr ⟨mem, rfl⟩))
      (length_filter_le _ _)
  refine allNext_takeNextSameIds_iff.trans ⟨fun next op mem => ?_, fun single => ?_⟩
  · refine (perId op mem).mp fun rank inside => ?_
    have distinct : (prog.withId op.id).Nodup :=
      (pairwise_withId op.id).imp fun less same => absurd (same ▸ less) (Nat.lt_irrefl _)
    obtain ⟨inProgram, same⟩ := mem_withId.mp (getElem_mem inside)
    obtain ⟨place, stands⟩ := getElem?_of_mem inProgram
    have found := next place _ stands
    have ranked := getElem?_withId stands
    rw [same] at found ranked
    obtain ⟨within, equal⟩ := List.getElem?_eq_some_iff.mp ranked
    rw [queue_setNextSameID, getElem?_map, (List.Nodup.getElem_inj_iff distinct).mp equal] at found
    exact found
  · intro place op stands
    rw [queue_setNextSameID, getElem?_map]
    have inside := (List.getElem?_eq_some_iff.mp (getElem?_withId stands)).1
    exact (perId op (mem_of_getElem? stands)).mpr
      (single op (mem_of_getElem? stands)) _ inside

/-- `setNextSameID` gives each barrier the next one with the same physical id, as the other pass
does, just when every physical id that is used has one barrier among the initial ones. -/
theorem setNextSameID_iff (prog : Program) :
    (prog.AllNext prog.setNextSameID ∧ prog.setNextSameID = prog.nextSameIdAssignment) ↔
      ∀ op ∈ prog.barriers, (prog.initial op.id).length = 1 := by
  refine ⟨fun both => allNext_setNextSameID_iff.mp both.1, fun single => ?_⟩
  have next := allNext_setNextSameID_iff.mpr single
  exact ⟨next, rightUnique_isNextSameId.forall₂ next allNext_nextSameIdAssignment⟩

/-- Two barriers share a physical id, and both are among the initial ones. -/
def repeatedAtFirst : Program where
  barriers := [⟨0, 0⟩, ⟨1, 0⟩]
  MAX_PID := 2
  ascending := by decide
  id_lt := by decide

/-- The first barrier is not told about the second one. -/
theorem repeatedAtFirst_missed :
    ¬ (repeatedAtFirst.AllNext repeatedAtFirst.setNextSameID ∧
      repeatedAtFirst.setNextSameID = repeatedAtFirst.nextSameIdAssignment) := by
  rintro ⟨-, same⟩
  exact absurd same (by decide)

end Program

end NpuPlugin.BarrierComputation
