/-
This file is about what the generator remembers of the accesses to one address. An access waits for
the recorded owners only, so that the emitted edges order conflicting accesses as long as no step
drops what a later access has to wait for.
-/

import NpuPlugin.ControlEdges.Refinement

variable {earlier : List ScheduledOpOneResource}

namespace NpuPlugin

open List Or

namespace ScheduledOpOneResource

theorem canOverlap_comm (first second : ScheduledOpOneResource) :
    first.canOverlap second = second.canOverlap first := by
  unfold canOverlap
  have swapApart : second.addressEnd < first.addressStart ∨
      second.addressStart > first.addressEnd ↔
      first.addressEnd < second.addressStart ∨ first.addressStart > second.addressEnd := comm
  by_cases apart : first.addressEnd < second.addressStart ∨ first.addressStart > second.addressEnd
  · rw [if_pos apart, if_pos (swapApart.mpr apart)]
  rw [if_neg apart, if_neg (mt swapApart.mp apart)]
  by_cases same : first.addressStart = second.addressStart ∧ first.addressEnd = second.addressEnd
  · rw [if_pos same, if_pos ⟨same.1.symm, same.2.symm⟩]
    cases first.resourceView with
    | none => cases second.resourceView <;> rfl
    | some resVal1 =>
      cases second.resourceView with
      | none => rfl
      | some resVal2 =>
        refine decide_eq_decide.mpr ?_
        rw [eq_comm, ne_comm, eq_comm (a := resVal1.staticStrides)]
  · rw [if_neg same, if_neg fun swapped => same ⟨swapped.1.symm, swapped.2.symm⟩]

theorem op_eq_of_not_less {first second : ScheduledOpOneResource}
    (notLess : first.less second = false) (notGreater : second.less first = false) :
    first.op = second.op := by
  unfold less at notLess notGreater
  split at notLess
  · rename_i same
    rw [if_pos ⟨same.1.symm, same.2.symm⟩] at notGreater
    have below := of_decide_eq_false notLess
    have above := of_decide_eq_false notGreater
    omega
  · rename_i different
    grind

end ScheduledOpOneResource

/-! ### Insertion into a set -/

section Set

variable {Element : Type} {less : Element → Element → Bool} {element : Element}
  {elements : List Element} {other : Element}

theorem mem_setInsert_of_mem (mem : other ∈ elements) :
    other ∈ setInsert less element elements := by
  induction elements with
  | nil => exact absurd mem not_mem_nil
  | cons head rest ih =>
    unfold setInsert
    split
    · exact mem_cons_of_mem _ mem
    · split
      · rcases mem_cons.mp mem with rfl | inRest
        · exact mem_cons_self
        · exact mem_cons_of_mem _ (ih inRest)
      · exact mem

theorem eq_or_mem_of_mem_setInsert (mem : other ∈ setInsert less element elements) :
    other = element ∨ other ∈ elements := by
  induction elements with
  | nil => exact inl (mem_singleton.mp mem)
  | cons head rest ih =>
    unfold setInsert at mem
    split at mem
    · exact mem_cons.mp mem
    · split at mem
      · rcases mem_cons.mp mem with rfl | inRest
        · exact inr mem_cons_self
        · exact (ih inRest).imp_right (mem_cons_of_mem _)
      · exact inr mem

theorem exists_equivalent_setInsert (elements : List Element)
    (irreflexive : less element element = false) :
    ∃ other ∈ setInsert less element elements,
      less element other = false ∧ less other element = false := by
  induction elements with
  | nil => exact ⟨element, mem_singleton_self _, irreflexive, irreflexive⟩
  | cons head rest ih =>
    unfold setInsert
    split
    · exact ⟨element, mem_cons_self, irreflexive, irreflexive⟩
    · rename_i notLess
      split
      · obtain ⟨other, mem, equivalent⟩ := ih
        exact ⟨other, mem_cons_of_mem _ mem, equivalent⟩
      · rename_i notGreater
        exact ⟨head, mem_cons_self, Bool.eq_false_iff.mpr notLess, Bool.eq_false_iff.mpr notGreater⟩

theorem exists_op_setInsert (access : ScheduledOpOneResource)
    (accesses : List ScheduledOpOneResource) :
    ∃ other ∈ setInsert ScheduledOpOneResource.less access accesses, other.op = access.op := by
  have irreflexive : access.less access = false := by
    unfold ScheduledOpOneResource.less
    rw [if_pos ⟨rfl, rfl⟩]
    exact decide_eq_false (lt_irrefl _)
  obtain ⟨other, mem, notLess, notGreater⟩ := exists_equivalent_setInsert accesses irreflexive
  exact ⟨other, mem, ScheduledOpOneResource.op_eq_of_not_less notGreater notLess⟩

end Set

namespace ControlEdgeGenerator

open ScheduledOpOneResource Relation

/-! ### Conflicts and paths -/

structure Conflicts (first second : ScheduledOpOneResource) : Prop where
  shared : ∃ address, Accesses first address ∧ Accesses second address
  produces : first.isIntervalProducer = true ∨ second.isIntervalProducer = true
  apart : first.canOverlap second = false

def Reaches (edges : List ControlEdge) : Nat → Nat → Prop :=
  ReflTransGen fun source sink => ⟨source, sink⟩ ∈ edges

variable {edges : List ControlEdge} {source sink : Nat}

theorem Reaches.mono {edges' : List ControlEdge} (more : edges ⊆ edges')
    (path : Reaches edges source sink) : Reaches edges' source sink :=
  ReflTransGen.mono (fun _ _ mem => more mem) _ _ path

/-- A path to another operation has a last edge that is no loop. -/
theorem Reaches.last_edge (path : Reaches edges source sink) (different : source ≠ sink) :
    ∃ middle, Reaches edges source middle ∧ middle ≠ sink ∧ ⟨middle, sink⟩ ∈ edges := by
  induction path with
  | refl => exact absurd rfl different
  | @tail middle sink earlier edge ih =>
    by_cases loop : middle = sink
    · exact loop ▸ ih (loop ▸ different)
    · exact ⟨middle, earlier, loop, edge⟩

theorem mem_sourcesOfProducers {currProducers : List Nat} {edge : ControlEdge}
    (mem : edge ∈ edges) (toProducer : edge.sink ∈ currProducers)
    (notLoop : edge.source ≠ edge.sink) : edge.source ∈ sourcesOfProducers currProducers edges := by
  unfold sourcesOfProducers
  induction edges using reverseRecOn with
  | nil => exact absurd mem not_mem_nil
  | append_singleton earlier last ih =>
    rw [foldl_append, foldl_cons, foldl_nil]
    rcases mem_append.mp mem with before | atLast
    · split
      · exact mem_setInsert_of_mem (ih before)
      · exact ih before
    · rw [mem_singleton.mp atLast] at toProducer notLoop ⊢
      rw [if_pos ⟨toProducer, notLoop⟩]
      have irreflexive : decide (last.source < last.source) = false := decide_eq_false (lt_irrefl _)
      obtain ⟨other, inside, notLess, notGreater⟩ := @exists_equivalent_setInsert Nat
        (fun first second => decide (first < second)) last.source _ irreflexive
      have same : last.source = other :=
        le_antisymm (not_lt.mp (of_decide_eq_false notGreater))
          (not_lt.mp (of_decide_eq_false notLess))
      rw [same] at inside ⊢
      exact inside

/-! ### The history of an address -/

/-- The accesses of one address: `settled` ones come before every recorded producer, `recent`
ones share the operation of a recorded producer or consumer. -/
structure History where
  owners : ProdConsType
  settled : List ScheduledOpOneResource
  recent : List ScheduledOpOneResource

def othersProduce (prodCons : ProdConsType) (access : ScheduledOpOneResource) : Bool :=
  prodCons.producers.any fun prod => prod.op ≠ access.op

variable (currInterval : ScheduledOpOneResource) (history : History)

def coexists (prodCons : ProdConsType) : Bool :=
  prodCons.producers.all (canProducersCoexist currInterval)

def History.after : History :=
  if currInterval.isIntervalProducer then
    if coexists currInterval history.owners then
      { owners := ownersAfter currInterval history.owners
        settled := history.settled.filter (othersProduce history.owners)
        recent := history.settled.filter (fun access => !othersProduce history.owners access) ++
          history.recent ++ [currInterval] }
    else
      { owners := ownersAfter currInterval history.owners
        settled := history.settled ++ history.recent
        recent := [currInterval] }
  else
    { history with
      owners := ownersAfter currInterval history.owners
      recent := history.recent ++ [currInterval] }

def historyStep (address : Nat) (history : Option History) : Option History :=
  if Accesses currInterval address then
    match history with
    | none => some ⟨stepOwners currInterval none, [], [currInterval]⟩
    | some history => some (history.after currInterval)
  else history

def addressHistory (intervals : List ScheduledOpOneResource) (address : Nat) : Option History :=
  intervals.foldl (fun history currInterval => historyStep currInterval address history) none

theorem addressHistory_snoc (earlier : List ScheduledOpOneResource)
    (currInterval : ScheduledOpOneResource) (address : Nat) :
    addressHistory (earlier ++ [currInterval]) address =
      historyStep currInterval address (addressHistory earlier address) :=
  foldl_append

theorem History.after_owners (currInterval : ScheduledOpOneResource) (history : History) :
    (history.after currInterval).owners = ownersAfter currInterval history.owners := by
  unfold History.after
  split
  · split
    · rfl
    · rfl
  · rfl

theorem addressHistory_owners (intervals : List ScheduledOpOneResource) (address : Nat) :
    (addressHistory intervals address).map History.owners = addressOwners intervals address := by
  induction intervals using reverseRecOn with
  | nil => rfl
  | append_singleton earlier currInterval ih =>
    rw [addressHistory_snoc, addressOwners_snoc, ← ih]
    unfold historyStep addressStep
    split
    · cases addressHistory earlier address with
      | none => rfl
      | some history => exact congrArg some (history.after_owners currInterval)
    · rfl

/-! ### Steps that lose no order -/

/-- A consumer that conflicts with an earlier producer meets a recorded producer that stands for
it. -/
def ConsumerKeepsOrder : Prop :=
  ∀ access ∈ history.settled ++ history.recent, access.isIntervalProducer = true →
    access.canOverlap currInterval = false → access.op = currInterval.op ∨
    ∃ prod ∈ history.owners.producers, prod.canOverlap currInterval = false ∧
      (access ∈ history.settled ∨ access.op = prod.op)

/-- A producer beside the recorded ones conflicts with none of the accesses since they took
over. -/
def CoexistingKeepsOrder : Prop :=
  (∀ access ∈ history.recent, access.canOverlap currInterval = false →
    access.op = currInterval.op) ∧
  ∀ access ∈ history.settled, access.canOverlap currInterval = false →
    access.op = currInterval.op ∨ othersProduce history.owners access = true

/-- A producer takes over an address that has readers only when each recorded producer was
read by one of them. -/
def TakeoverKeepsOrder (prodCons : ProdConsType) : Prop :=
  prodCons.consumers = [] ∨ ∀ prod ∈ prodCons.producers, ∃ cons ∈ prodCons.consumers,
    cons.op = prod.op ∨ cons.canOverlap prod = false

/-- The access is ordered after those it conflicts with, and drops nothing that is not. -/
def KeepsOrder : Prop :=
  if currInterval.isIntervalProducer = true then
    if coexists currInterval history.owners = true then CoexistingKeepsOrder currInterval history
    else TakeoverKeepsOrder history.owners
  else ConsumerKeepsOrder currInterval history

instance (currInterval : ScheduledOpOneResource) (history : History) :
    Decidable (ConsumerKeepsOrder currInterval history) :=
  inferInstanceAs (Decidable (∀ _ ∈ _, _))

instance (currInterval : ScheduledOpOneResource) (history : History) :
    Decidable (CoexistingKeepsOrder currInterval history) :=
  inferInstanceAs (Decidable (_ ∧ _))

instance (prodCons : ProdConsType) : Decidable (TakeoverKeepsOrder prodCons) :=
  inferInstanceAs (Decidable (_ ∨ _))

instance (currInterval : ScheduledOpOneResource) (history : History) :
    Decidable (KeepsOrder currInterval history) :=
  inferInstanceAs (Decidable (if currInterval.isIntervalProducer = true then
    if coexists currInterval history.owners = true then CoexistingKeepsOrder currInterval history
    else TakeoverKeepsOrder history.owners
  else ConsumerKeepsOrder currInterval history))

/-- No access of the sequence loses order at any of its addresses. -/
def StepsKeepOrder (intervals : List ScheduledOpOneResource) : Prop :=
  ∀ earlier currInterval later, intervals = earlier ++ currInterval :: later →
    ∀ address, Accesses currInterval address →
      ∀ history ∈ addressHistory earlier address, KeepsOrder currInterval history

theorem stepsKeepOrder_snoc
    {currInterval : ScheduledOpOneResource} :
    StepsKeepOrder (earlier ++ [currInterval]) ↔ StepsKeepOrder earlier ∧
      ∀ address, Accesses currInterval address →
        ∀ history ∈ addressHistory earlier address, KeepsOrder currInterval history := by
  constructor
  · intro keeps
    refine ⟨fun before middle after whole => keeps before middle (after ++ [currInterval]) ?_,
      keeps earlier currInterval [] rfl⟩
    rw [whole, append_assoc, cons_append]
  · rintro ⟨keepsEarlier, keepsLast⟩ before middle after whole
    rcases eq_nil_or_concat after with rfl | ⟨front, last, rfl⟩
    · obtain ⟨rfl, single⟩ := append_inj' whole rfl
      obtain rfl := head_eq_of_cons_eq single
      exact keepsLast
    · rw [concat_eq_append, ← cons_append, ← append_assoc] at whole
      obtain ⟨same, _⟩ := append_inj' whole rfl
      exact keepsEarlier before middle front same

end ControlEdgeGenerator

end NpuPlugin

namespace NpuPlugin.ControlEdgeGenerator

open Bool List Or Pieces Relation ScheduledOpOneResource

/-- The order of the accesses of one address is kept by its owners. -/
structure OrderedAt (accesses : List ScheduledOpOneResource) (edges : List ControlEdge)
    (history : History) : Prop where
  known : ∀ access ∈ accesses, access ∈ history.settled ∨ access ∈ history.recent
  producers : history.owners.producers ≠ []
  consumers : ∀ cons ∈ history.owners.consumers, cons ∈ history.recent
  settled : ∀ access ∈ history.settled, ∀ prod ∈ history.owners.producers,
    Reaches edges access.op prod.op
  recent : ∀ access ∈ history.recent, (∃ prod ∈ history.owners.producers, prod.op = access.op) ∨
    ∃ cons ∈ history.owners.consumers, cons.op = access.op
  readers : ∀ prod ∈ history.owners.producers, ∀ cons ∈ history.owners.consumers,
    cons.canOverlap prod = false → Reaches edges prod.op cons.op

/-- The edges the owners of an address call for were emitted. -/
def EdgesAdded (currInterval : ScheduledOpOneResource) (prodCons : ProdConsType)
    (edges edges' : List ControlEdge) : Prop :=
  ∃ before, edges <+: before ∧ before ++ (updateOwners currInterval prodCons before).2 <+: edges'

/-- The access comes after the earlier ones it conflicts with. -/
def OrderedAfter (accesses : List ScheduledOpOneResource) (edges : List ControlEdge)
    (currInterval : ScheduledOpOneResource) : Prop :=
  ∀ access ∈ accesses, Conflicts access currInterval → Reaches edges access.op currInterval.op

section Step

variable {accesses : List ScheduledOpOneResource} {currInterval : ScheduledOpOneResource}
  {edges edges' : List ControlEdge} {history : History}

theorem EdgesAdded.subset {prodCons : ProdConsType}
    (added : EdgesAdded currInterval prodCons edges edges') : edges ⊆ edges' := by
  obtain ⟨before, started, emitted⟩ := added
  exact fun edge mem => emitted.subset (mem_append_left _ (started.subset mem))

/-! ### What an access waits for -/

variable {prodCons : ProdConsType}

section

variable (added : EdgesAdded currInterval prodCons edges edges')
include added

theorem consumer_edge (consumer : currInterval.isIntervalProducer = false)
    {prod : ScheduledOpOneResource} (recorded : prod ∈ prodCons.producers)
    (apart : prod.canOverlap currInterval = false) : Reaches edges' prod.op currInterval.op := by
  obtain ⟨before, _, emitted⟩ := added
  refine ReflTransGen.single (emitted.subset (mem_append_right _ ?_))
  unfold updateOwners
  rw [consumer, if_neg Bool.false_ne_true]
  refine mem_map.mpr ⟨prod, mem_filter.mpr ⟨recorded, ?_⟩, rfl⟩
  unfold sameIntervalAccess
  rw [canOverlap_comm, apart]
  rfl

theorem takeover_edges (isProducer : currInterval.isIntervalProducer = true)
    (apart : ¬ coexists currInterval prodCons = true) :
    (prodCons.consumers = [] → ∀ prod ∈ prodCons.producers,
      Reaches edges' prod.op currInterval.op) ∧
    ∀ cons ∈ prodCons.consumers, Reaches edges' cons.op currInterval.op := by
  obtain ⟨before, _, emitted⟩ := added
  unfold coexists at apart
  unfold updateOwners at emitted
  rw [isProducer, if_pos rfl, if_neg apart] at emitted
  constructor
  · intro none prod recorded
    rw [none, isEmpty_nil, if_pos rfl] at emitted
    exact ReflTransGen.single (emitted.subset
      (mem_append_right _ (mem_map.mpr ⟨prod, recorded, rfl⟩)))
  · intro cons recorded
    have some : ¬ prodCons.consumers.isEmpty = true := fun empty =>
      ne_nil_of_mem recorded (isEmpty_iff.mp empty)
    rw [if_neg some] at emitted
    exact ReflTransGen.single (emitted.subset
      (mem_append_right _ (mem_map.mpr ⟨cons, recorded, rfl⟩)))

end

theorem OrderedAt.exists_producer (ordered : OrderedAt accesses edges history) :
    ∃ prod, prod ∈ history.owners.producers :=
  exists_mem_of_ne_nil _ ordered.producers

/-! ### A consumer -/

section Added

variable (ordered : OrderedAt accesses edges history)
  (added : EdgesAdded currInterval history.owners edges edges')

include ordered added

theorem OrderedAt.consumer (isConsumer : currInterval.isIntervalProducer = false) :
    OrderedAt (accesses ++ [currInterval]) edges' (history.after currInterval) := by
  have afterEq : history.after currInterval =
      ⟨history.owners.addConsumer currInterval, history.settled,
        history.recent ++ [currInterval]⟩ := by
    unfold History.after ownersAfter
    rw [isConsumer]
    rfl
  have more := added.subset
  rw [afterEq]
  refine ⟨fun access mem => ?_, ordered.producers, fun cons mem => ?_,
    fun access mem prod recorded => (ordered.settled access mem prod recorded).mono more,
    fun access mem => ?_, fun prod recorded cons mem apart => ?_⟩
  · rcases mem_append.mp mem with earlier | last
    · exact (ordered.known access earlier).imp_right (mem_append_left _)
    · exact inr (mem_append_right _ last)
  · rcases eq_or_mem_of_mem_setInsert mem with rfl | old
    · exact mem_append_right _ (mem_singleton_self _)
    · exact mem_append_left _ (ordered.consumers cons old)
  · rcases mem_append.mp mem with old | last
    · refine (ordered.recent access old).imp_right ?_
      rintro ⟨cons, recorded, same⟩
      exact ⟨cons, mem_setInsert_of_mem recorded, same⟩
    · rw [mem_singleton.mp last]
      exact inr (exists_op_setInsert currInterval _)
  · rcases eq_or_mem_of_mem_setInsert mem with rfl | old
    · exact consumer_edge added isConsumer recorded ((canOverlap_comm _ _).trans apart)
    · exact (ordered.readers prod recorded cons old apart).mono more

theorem OrderedAt.consumer_after (isConsumer : currInterval.isIntervalProducer = false)
    (keeps : ConsumerKeepsOrder currInterval history) :
    OrderedAfter accesses edges' currInterval := by
  intro access mem conflicts
  have producer : access.isIntervalProducer = true :=
    conflicts.produces.resolve_right (eq_false_iff.mp isConsumer)
  rcases keeps access (mem_append.mpr (ordered.known access mem)) producer
    conflicts.apart with same | ⟨prod, recorded, apart, stands⟩
  · rw [same]
    exact ReflTransGen.refl
  · have edge := consumer_edge added isConsumer recorded apart
    rcases stands with settled | same
    · exact ((ordered.settled access settled prod recorded).mono added.subset).trans edge
    · exact same ▸ edge

/-! ### A producer beside the recorded ones -/

section Coexisting

variable (isProducer : currInterval.isIntervalProducer = true)
  (beside : coexists currInterval history.owners = true)

include isProducer beside

theorem OrderedAt.coexisting_reached {access : ScheduledOpOneResource}
    (settled : access ∈ history.settled) (others : othersProduce history.owners access = true) :
    Reaches edges' access.op currInterval.op := by
  obtain ⟨before, started, emitted⟩ := added
  obtain ⟨prod, recorded, different⟩ := any_eq_true.mp others
  obtain ⟨source, path, notLoop, edge⟩ := Reaches.last_edge
    (ordered.settled access settled prod recorded) (of_decide_eq_true different).symm
  have more : edges ⊆ edges' := fun edge mem =>
    emitted.subset (mem_append_left _ (started.subset mem))
  refine (path.mono more).trans (ReflTransGen.single (emitted.subset (mem_append_right _ ?_)))
  unfold coexists at beside
  unfold updateOwners
  rw [isProducer, if_pos rfl, beside, if_pos rfl]
  exact mem_map.mpr ⟨source, mem_sourcesOfProducers (started.subset edge)
    (mem_map.mpr ⟨prod, recorded, rfl⟩) notLoop, rfl⟩

theorem OrderedAt.coexisting (keeps : CoexistingKeepsOrder currInterval history) :
    OrderedAt (accesses ++ [currInterval]) edges' (history.after currInterval) := by
  have afterEq : history.after currInterval =
      ⟨history.owners.addProducer currInterval,
        history.settled.filter (othersProduce history.owners),
        history.settled.filter (fun access => !othersProduce history.owners access) ++
          history.recent ++ [currInterval]⟩ := by
    unfold History.after ownersAfter
    unfold coexists at beside ⊢
    rw [isProducer, if_pos rfl, if_pos rfl, beside, if_pos rfl, if_pos rfl]
  have more := added.subset
  obtain ⟨first, firstRecorded⟩ := ordered.exists_producer
  rw [afterEq]
  refine ⟨fun access mem => ?_, ne_nil_of_mem (mem_setInsert_of_mem firstRecorded),
    fun cons mem => mem_append_left _ (mem_append_right _
      (ordered.consumers cons mem)), fun access mem prod recorded => ?_,
    fun access mem => ?_, fun prod recorded cons mem apart => ?_⟩
  · dsimp only
    rw [mem_append, mem_append, mem_filter, mem_filter]
    rcases mem_append.mp mem with earlier | last
    · rcases ordered.known access earlier with settled | recent
      · cases others : othersProduce history.owners access with
        | true => exact inl ⟨settled, rfl⟩
        | false => exact inr (inl (inl ⟨settled, rfl⟩))
      · exact inr (inl (inr recent))
    · exact inr (inr last)
  · obtain ⟨settled, others⟩ := mem_filter.mp mem
    rcases eq_or_mem_of_mem_setInsert recorded with rfl | old
    · exact ordered.coexisting_reached added isProducer beside settled others
    · exact (ordered.settled access settled prod old).mono more
  · rcases mem_append.mp mem with old | last
    · rcases mem_append.mp old with alone | recent
      · -- all recorded producers belong to the operation of the access
        have same : first.op = access.op := by
          have none := (mem_filter.mp alone).2
          rw [not_eq_true', othersProduce, any_eq_false] at none
          exact not_not.mp fun different => none first firstRecorded (decide_eq_true different)
        exact inl ⟨first, mem_setInsert_of_mem firstRecorded, same⟩
      · refine (ordered.recent access recent).imp_left ?_
        rintro ⟨prod, recorded, same⟩
        exact ⟨prod, mem_setInsert_of_mem recorded, same⟩
    · rw [mem_singleton.mp last]
      exact inl (exists_op_setInsert currInterval _)
  · rcases eq_or_mem_of_mem_setInsert recorded with rfl | old
    · rw [keeps.1 cons (ordered.consumers cons mem) apart]
      exact ReflTransGen.refl
    · exact (ordered.readers prod old cons mem apart).mono more

theorem OrderedAt.coexisting_after (keeps : CoexistingKeepsOrder currInterval history) :
    OrderedAfter accesses edges' currInterval := by
  intro access mem conflicts
  have same : access.op = currInterval.op → Reaches edges' access.op currInterval.op := by
    intro equal
    rw [equal]
    exact ReflTransGen.refl
  rcases ordered.known access mem with settled | recent
  · rcases keeps.2 access settled conflicts.apart with equal | others
    · exact same equal
    · exact ordered.coexisting_reached added isProducer beside settled others
  · exact same (keeps.1 access recent conflicts.apart)

end Coexisting

/-! ### A producer that takes over -/

section

variable (isProducer : currInterval.isIntervalProducer = true)
  (apart : ¬ coexists currInterval history.owners = true)
  (keeps : TakeoverKeepsOrder history.owners)
include isProducer apart keeps

/-- Everything known of the address reaches the producer that takes over. -/
theorem OrderedAt.takeover_reached {access : ScheduledOpOneResource}
    (known : access ∈ history.settled ∨ access ∈ history.recent) :
    Reaches edges' access.op currInterval.op := by
  have more := added.subset
  obtain ⟨unread, fromConsumers⟩ := takeover_edges added isProducer apart
  have fromProducers : ∀ prod ∈ history.owners.producers,
      Reaches edges' prod.op currInterval.op := by
    intro prod recorded
    rcases keeps with none | read
    · exact unread none prod recorded
    · obtain ⟨cons, reader, same | conflicting⟩ := read prod recorded
      · exact same ▸ fromConsumers cons reader
      · exact ((ordered.readers prod recorded cons reader conflicting).mono more).trans
          (fromConsumers cons reader)
  rcases known with settled | recent
  · obtain ⟨prod, recorded⟩ := ordered.exists_producer
    exact ((ordered.settled access settled prod recorded).mono more).trans
      (fromProducers prod recorded)
  · rcases ordered.recent access recent with ⟨prod, recorded, same⟩ | ⟨cons, recorded, same⟩
    · exact same ▸ fromProducers prod recorded
    · exact same ▸ fromConsumers cons recorded

theorem OrderedAt.takeover :
    OrderedAt (accesses ++ [currInterval]) edges' (history.after currInterval) := by
  have afterEq : history.after currInterval =
      ⟨⟨[currInterval], []⟩, history.settled ++ history.recent, [currInterval]⟩ := by
    unfold History.after ownersAfter
    unfold coexists at apart ⊢
    rw [isProducer, if_pos rfl, if_pos rfl, if_neg apart, if_neg apart]
    rfl
  rw [afterEq]
  refine ⟨fun access mem => ?_, cons_ne_nil _ _, forall_mem_nil _,
    fun access mem prod recorded => ?_, fun access mem => ?_,
    fun _ _ _ no => absurd no not_mem_nil⟩
  · rcases mem_append.mp mem with earlier | last
    · exact inl (mem_append.mpr (ordered.known access earlier))
    · exact inr last
  · rw [mem_singleton.mp recorded]
    exact ordered.takeover_reached added isProducer apart keeps (mem_append.mp mem)
  · rw [mem_singleton.mp mem]
    exact inl ⟨currInterval, mem_singleton_self _, rfl⟩

end

/-! ### One access -/

/-- A step that keeps the order comes after the accesses it conflicts with. -/
theorem OrderedAt.step (keeps : KeepsOrder currInterval history) :
    OrderedAt (accesses ++ [currInterval]) edges' (history.after currInterval) ∧
      OrderedAfter accesses edges' currInterval := by
  unfold KeepsOrder at keeps
  split at keeps
  · rename_i isProducer
    split at keeps
    · rename_i beside
      exact ⟨ordered.coexisting added isProducer beside keeps,
        ordered.coexisting_after added isProducer beside keeps⟩
    · rename_i apart
      exact ⟨ordered.takeover added isProducer apart keeps, fun access mem _ =>
        ordered.takeover_reached added isProducer apart keeps (ordered.known access mem)⟩
  · rename_i notProducer
    have isConsumer := eq_false_iff.mpr notProducer
    exact ⟨ordered.consumer added isConsumer, ordered.consumer_after added isConsumer keeps⟩

end Added

theorem OrderedAt.mono (ordered : OrderedAt accesses edges history) (more : edges ⊆ edges') :
    OrderedAt accesses edges' history :=
  ⟨ordered.known, ordered.producers, ordered.consumers,
    fun access mem prod recorded => (ordered.settled access mem prod recorded).mono more,
    ordered.recent, fun prod recorded cons mem apart =>
      (ordered.readers prod recorded cons mem apart).mono more⟩

end Step

/-! ### Sequences of accesses -/

def accessesAt (intervals : List ScheduledOpOneResource) (address : Nat) :
    List ScheduledOpOneResource :=
  intervals.filter fun interval => decide (Accesses interval address)

structure Complete (intervals : List ScheduledOpOneResource) (state : Generated) : Prop where
  generated : generateControlEdges intervals = .ok state
  refines : Refines intervals state
  histories : ∀ address, ∀ history ∈ addressHistory intervals address,
    OrderedAt (accessesAt intervals address) state.edges history
  ordered : intervals.Pairwise fun first second =>
    Conflicts first second → Reaches state.edges first.op second.op

theorem accessesAt_snoc (earlier : List ScheduledOpOneResource)
    (currInterval : ScheduledOpOneResource) (address : Nat) :
    accessesAt (earlier ++ [currInterval]) address = accessesAt earlier address ++
      if Accesses currInterval address then [currInterval] else [] := by
  unfold accessesAt
  rw [filter_append, filter_singleton]
  by_cases inside : Accesses currInterval address
  · rw [decide_eq_true inside, if_pos inside]
    rfl
  · rw [decide_eq_false inside, if_neg inside]
    rfl

variable {intervals : List ScheduledOpOneResource} {address : Nat}

theorem mem_accessesAt {access : ScheduledOpOneResource} :
    access ∈ accessesAt intervals address ↔ access ∈ intervals ∧ Accesses access address := by
  unfold accessesAt
  rw [mem_filter, decide_eq_true_eq]

theorem accessesAt_eq_nil (none : addressHistory intervals address = none) :
    accessesAt intervals address = [] := by
  refine eq_nil_iff_forall_not_mem.mpr fun access mem => ?_
  have owned := (addressOwners_isSome_iff intervals address).mpr
    ⟨access, mem_accessesAt.mp mem⟩
  rw [← addressHistory_owners, none] at owned
  exact Bool.false_ne_true owned

theorem orderedAt_first (currInterval : ScheduledOpOneResource) (edges : List ControlEdge) :
    OrderedAt [currInterval] edges ⟨stepOwners currInterval none, [], [currInterval]⟩ :=
  ⟨fun _ mem => inr mem, cons_ne_nil _ _, forall_mem_nil _,
    forall_mem_nil _, fun _ mem =>
      inl ⟨currInterval, mem_singleton_self _, congrArg op (mem_singleton.mp mem).symm⟩,
    fun _ _ _ no => absurd no not_mem_nil⟩

theorem Complete.step {state : Generated}
    {currInterval : ScheduledOpOneResource} (complete : Complete earlier state)
    (keeps : ∀ address, Accesses currInterval address →
      ∀ history ∈ addressHistory earlier address, KeepsOrder currInterval history) :
    ∃ next, Complete (earlier ++ [currInterval]) next := by
  obtain ⟨next, generated, refines, grows, emitted⟩ :=
    complete.refines.step complete.generated currInterval
  have stepped : ∀ address history, Accesses currInterval address →
      addressHistory earlier address = some history →
      OrderedAt (accessesAt earlier address ++ [currInterval]) next.edges
          (history.after currInterval) ∧
        OrderedAfter (accessesAt earlier address) next.edges currInterval := by
    intro address history inside known
    have owned : addressOwners earlier address = some history.owners := by
      rw [← addressHistory_owners, known]
      rfl
    exact (complete.histories address history known).step
      (emitted address history.owners inside owned) (keeps address inside history known)
  refine ⟨next, generated, refines, fun address history known => ?_, ?_⟩
  · rw [accessesAt_snoc]
    rw [addressHistory_snoc] at known
    unfold historyStep at known
    by_cases inside : Accesses currInterval address
    · rw [if_pos inside] at known ⊢
      cases previous : addressHistory earlier address with
      | none =>
        rw [previous] at known
        rw [accessesAt_eq_nil previous, ← Option.some_inj.mp known]
        exact orderedAt_first currInterval next.edges
      | some old =>
        rw [previous] at known
        rw [← Option.some_inj.mp known]
        exact (stepped address old inside previous).1
    · rw [if_neg inside] at known ⊢
      rw [append_nil]
      exact (complete.histories address history known).mono grows.subset
  · refine pairwise_append.mpr ⟨complete.ordered.imp fun reaches conflicts =>
      (reaches conflicts).mono grows.subset, pairwise_singleton _ _, ?_⟩
    intro access mem last single conflicts
    rw [mem_singleton.mp single] at conflicts ⊢
    obtain ⟨address, accessed, inside⟩ := conflicts.shared
    have present : access ∈ accessesAt earlier address := mem_accessesAt.mpr ⟨mem, accessed⟩
    cases previous : addressHistory earlier address with
    | none =>
      rw [accessesAt_eq_nil previous] at present
      exact absurd present not_mem_nil
    | some old => exact (stepped address old inside previous).2 access present conflicts

/-- When every step keeps the order, conflicting accesses are ordered by the emitted edges. -/
theorem generateControlEdges_complete (intervals : List ScheduledOpOneResource)
    (keeps : StepsKeepOrder intervals) :
    ∃ state, generateControlEdges intervals = .ok state ∧
      intervals.Pairwise fun first second =>
        Conflicts first second → Reaches state.edges first.op second.op := by
  have complete : ∃ state, Complete intervals state := by
    induction intervals using reverseRecOn with
    | nil =>
      exact ⟨⟨[], []⟩, rfl, ⟨⟨rfl, ordered_nil, forall_mem_nil _⟩,
        fun _ => rfl⟩, fun _ _ no => absurd no (Option.not_mem_none _), List.Pairwise.nil⟩
    | append_singleton earlier currInterval ih =>
      obtain ⟨keepsEarlier, keepsLast⟩ := stepsKeepOrder_snoc.mp keeps
      obtain ⟨state, before⟩ := ih keepsEarlier
      exact before.step keepsLast
  obtain ⟨state, complete⟩ := complete
  exact ⟨state, complete.generated, complete.ordered⟩

theorem addressHistory_congr {other : Nat}
    (same : ∀ interval ∈ intervals, Accesses interval address ↔ Accesses interval other) :
    addressHistory intervals address = addressHistory intervals other := by
  refine foldl_ext _ _ _ fun history interval mem => ?_
  unfold historyStep
  rw [if_congr (same interval mem) rfl rfl]

/-- An access of an operation to a buffer of 100 bytes, or to the view of it with the offset. -/
def bufferAccess (op : Nat) (resRelation : EResRelation) (offset : Option Int) :
    ScheduledOpOneResource where
  op := op
  addressStart := 0
  addressEnd := 99
  resRelation := resRelation
  resourceView := offset.map fun offset => ⟨0, [offset], [50], [1]⟩

/-- Two halves are written and the whole buffer is read before it is overwritten. -/
def overwriteRead : List ScheduledOpOneResource :=
  [bufferAccess 1 .producer (some 0), bufferAccess 2 .producer (some 50),
    bufferAccess 3 .consumer none, bufferAccess 4 .producer none]

theorem generateControlEdges_complete_overwriteRead :
    StepsKeepOrder overwriteRead ∧
      ∃ state, generateControlEdges overwriteRead = .ok state ∧
        overwriteRead.Pairwise fun first second =>
          Conflicts first second → Reaches state.edges first.op second.op := by
  have keeps : StepsKeepOrder overwriteRead := by
    have empty : StepsKeepOrder [] := fun before middle after whole =>
      absurd whole.symm (append_ne_nil_of_right_ne_nil _ (cons_ne_nil _ _))
    have next : ∀ earlier op resRelation offset, StepsKeepOrder earlier →
        (∀ interval ∈ earlier, interval.addressStart = 0 ∧ interval.addressEnd = 99) →
        (∀ history ∈ addressHistory earlier 0,
          KeepsOrder (bufferAccess op resRelation offset) history) →
        StepsKeepOrder (earlier ++ [bufferAccess op resRelation offset]) := by
      intro earlier op resRelation offset before range keeps
      refine stepsKeepOrder_snoc.mpr ⟨before, fun address inside => ?_⟩
      have upper : address ≤ 99 := inside.2
      have same : addressHistory earlier address = addressHistory earlier 0 := by
        refine addressHistory_congr fun interval mem => ?_
        unfold Accesses
        rw [(range interval mem).1, (range interval mem).2]
        omega
      rw [same]
      exact keeps
    exact next [_, _, _] 4 _ _ (next [_, _] 3 _ _ (next [_] 2 _ _ (next [] 1 _ _ empty (by decide)
      (by decide)) (by decide) (by decide)) (by decide) (by decide)) (by decide) (by decide)
  exact ⟨keeps, generateControlEdges_complete overwriteRead keeps⟩

/-- Only the first half is read before the buffer is overwritten. -/
def overwriteUnread : List ScheduledOpOneResource :=
  [bufferAccess 1 .producer (some 0), bufferAccess 2 .producer (some 50),
    bufferAccess 3 .consumer (some 0), bufferAccess 4 .producer none]

/-- The writer of the second half is not ordered before the one that overwrites it. -/
theorem unread_producer_unordered :
    ¬ ∃ state, generateControlEdges overwriteUnread = .ok state ∧
      overwriteUnread.Pairwise fun first second =>
        Conflicts first second → Reaches state.edges first.op second.op := by
  rintro ⟨state, generated, ordered⟩
  have edges : state.edges = [⟨1, 3⟩, ⟨3, 4⟩] := by
    have whole : (generateControlEdges overwriteUnread).toOption.map Generated.edges =
        some [⟨1, 3⟩, ⟨3, 4⟩] := by decide +kernel
    rw [generated] at whole
    exact Option.some_inj.mp whole
  have conflicts : Conflicts (bufferAccess 2 .producer (some 50)) (bufferAccess 4 .producer none) :=
    ⟨⟨0, by decide, by decide⟩, inl rfl, by decide⟩
  have reaches : Reaches state.edges 2 4 :=
    (pairwise_cons.mp (pairwise_cons.mp ordered).2).1 _
      (mem_cons_of_mem _ mem_cons_self) conflicts
  rcases ReflTransGen.cases_head reaches with same | ⟨middle, edge, _⟩
  · exact absurd same (by decide)
  · rw [edges] at edge
    simp at edge

end NpuPlugin.ControlEdgeGenerator
