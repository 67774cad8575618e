/-
This file models the dependencies between asynchronous operations: each has a set of the operations
it depends on and, once that map is built, a set of its consumers. The optimization of the
dependency map keeps which operations depend on which, and both maps are followed through any
sequence of changes.
-/

import Mathlib.Data.List.GetD
import NpuPlugin.Library.Reachability

namespace NpuPlugin

open List

namespace AsyncDepsInfo

/-- An entry of a map from operations to sets of operations. -/
def entry (map : List (Finset Nat)) (index : Nat) : Finset Nat := map.getD index ∅

/-- `SIMPLIFIED_OPTIMIZATION_OP_COUNT_THRESHOLD`. -/
def simplifiedOptimizationOpCountThreshold : Nat := 10000

def performSimplifiedOptimization (depsMap : List (Finset Nat)) : Bool :=
  decide (simplifiedOptimizationOpCountThreshold < depsMap.length)

/-- The dependencies of the current dependencies are inserted. The set is not read while it grows
unless an operation depends on itself, when its own members are inserted again. -/
def extendDeps (refDeps depsMapClosure : List (Finset Nat)) (index : Nat) : List (Finset Nat) :=
  let curDeps := entry depsMapClosure index
  depsMapClosure.set index (curDeps ∪ curDeps.biUnion fun curDepInd => entry refDeps curDepInd)

/-- Step 1. The last entry is not extended. -/
def depsMapClosure (depsMap : List (Finset Nat)) : List (Finset Nat) :=
  (List.range (depsMap.length - 1)).foldl
    (fun depsMapClosure index =>
      let refDeps := if performSimplifiedOptimization depsMap then depsMap else depsMapClosure
      extendDeps refDeps depsMapClosure index)
    depsMap

/-- Dependencies that the current dependencies stand for are erased. -/
def reducedDeps (depsMapClosure : List (Finset Nat)) (curDeps : Finset Nat) : Finset Nat :=
  if curDeps.card ≤ 1 then curDeps
  else curDeps \ curDeps.biUnion fun curDepInd => entry depsMapClosure curDepInd

def reduceDeps (depsMapClosure depsMap : List (Finset Nat)) (index : Nat) : List (Finset Nat) :=
  depsMap.set index (reducedDeps depsMapClosure (entry depsMap index))

/-- The entries that step 2 visits. The number of entries is cast to a signed word of 32 bits. -/
@[irreducible] def reducedIndices (size : Nat) : List Nat :=
  (List.range (Int.bmod size (2 ^ 32)).toNat).reverse

/-- Step 2. -/
def reducedDepsMap (depsMap : List (Finset Nat)) : List (Finset Nat) :=
  (reducedIndices depsMap.length).foldl (reduceDeps (depsMapClosure depsMap)) depsMap

/-- Entries are dropped or empty entries are added at the end. -/
def resize (map : List (Finset Nat)) (size : Nat) : List (Finset Nat) :=
  map.take size ++ List.replicate (size - map.length) ∅

/-- An operation becomes a consumer of each of its dependencies. -/
def insertConsumer (depsMap consumerMap : List (Finset Nat)) (index : Nat) : List (Finset Nat) :=
  consumerMap.mapIdx fun bit consumers =>
    if bit ∈ entry depsMap index then insert index consumers else consumers

end AsyncDepsInfo

/-- Dependencies are indices of the dependency map. -/
structure AsyncDepsInfo where
  depsMap : List (Finset Nat)
  consumerMap : List (Finset Nat)
  depsInRange : ∀ deps ∈ depsMap, ∀ dep ∈ deps, dep < depsMap.length

namespace AsyncDepsInfo

def IsDep (depsMap : List (Finset Nat)) (dep index : Nat) : Prop := dep ∈ entry depsMap index

instance (depsMap : List (Finset Nat)) (dep index : Nat) : Decidable (IsDep depsMap dep index) :=
  inferInstanceAs (Decidable (dep ∈ entry depsMap index))

def buildConsMap (info : AsyncDepsInfo) : AsyncDepsInfo :=
  { info with
    consumerMap := (List.range info.depsMap.length).foldl (insertConsumer info.depsMap)
      (resize info.consumerMap info.depsMap.length) }

/-! ### Entries -/

variable {depsMap : List (Finset Nat)} {dep index : Nat}

theorem entry_set (value : Finset Nat) (other : Nat) :
    entry (depsMap.set index value) other =
      if other = index ∧ index < depsMap.length then value else entry depsMap other := by
  unfold entry
  rw [getD_eq_getElem?_getD, getD_eq_getElem?_getD, getElem?_set]
  by_cases same : index = other
  · rw [if_pos same, ← same]
    by_cases inside : index < depsMap.length
    · rw [if_pos inside, if_pos ⟨rfl, inside⟩, Option.getD_some]
    · rw [if_neg inside, if_neg fun both => inside both.2, getElem?_eq_none (by omega)]
  · rw [if_neg same, if_neg fun both => same both.1.symm]

theorem lt_length_of_isDep (mem : IsDep depsMap dep index) : index < depsMap.length := by
  by_contra outside
  unfold IsDep entry at mem
  rw [getD_eq_default _ _ (by omega)] at mem
  exact absurd mem (Finset.notMem_empty dep)

theorem mem_of_isDep (mem : IsDep depsMap dep index) : ∃ deps ∈ depsMap, dep ∈ deps := by
  have inside := lt_length_of_isDep mem
  refine ⟨depsMap[index], getElem_mem inside, ?_⟩
  unfold IsDep entry at mem
  rwa [getD_eq_getElem _ _ inside] at mem

theorem isDep_of_mem {deps : Finset Nat} (present : deps ∈ depsMap) (mem : dep ∈ deps) :
    ∃ index, IsDep depsMap dep index := by
  obtain ⟨index, inside, equal⟩ := mem_iff_getElem.mp present
  refine ⟨index, ?_⟩
  unfold IsDep entry
  rw [getD_eq_getElem _ _ inside, equal]
  exact mem

/-! ### Sizes -/

theorem length_extendDeps (refDeps map : List (Finset Nat)) (index : Nat) :
    (extendDeps refDeps map index).length = map.length :=
  length_set

theorem length_reduceDeps (closure map : List (Finset Nat)) (index : Nat) :
    (reduceDeps closure map index).length = map.length :=
  length_set

theorem reducedIndices_eq {size : Nat} (small : size < 2 ^ 31) :
    reducedIndices size = (List.range size).reverse := by
  unfold reducedIndices
  rw [Int.bmod_eq_of_le (by omega) (by omega), Int.toNat_natCast]

end AsyncDepsInfo

/-! ### Paths -/

namespace AsyncDepsInfo

open Relation Reachability

variable {depsMap : List (Finset Nat)} {dep index : Nat}

/-! ### The transitive closure -/

variable {refDeps map : List (Finset Nat)} {other : Nat}

theorem mem_entry_extendDeps (mem : dep ∈ entry (extendDeps refDeps map index) other) :
    dep ∈ entry map other ∨
      other = index ∧ ∃ between ∈ entry map index, dep ∈ entry refDeps between := by
  unfold extendDeps at mem
  rw [entry_set] at mem
  split at mem
  · next here =>
    rcases Finset.mem_union.mp mem with old | added
    · exact .inl (here.1 ▸ old)
    · exact .inr ⟨here.1, Finset.mem_biUnion.mp added⟩
  · exact .inl mem

theorem mem_entry_extendDeps_of_mem (mem : dep ∈ entry map other) :
    dep ∈ entry (extendDeps refDeps map index) other := by
  unfold extendDeps
  rw [entry_set]
  split
  · next here => exact Finset.mem_union_left _ (here.1 ▸ mem)
  · exact mem

theorem mem_entry_extendDeps_of_between {between : Nat} (inside : index < map.length)
    (first : between ∈ entry map index) (second : dep ∈ entry refDeps between) :
    dep ∈ entry (extendDeps refDeps map index) index := by
  unfold extendDeps
  rw [entry_set, if_pos ⟨rfl, inside⟩]
  exact Finset.mem_union_right _ (Finset.mem_biUnion.mpr ⟨between, first, second⟩)

/-- Every entry holds transitive dependencies only. -/
def Sound (depsMap closure : List (Finset Nat)) : Prop :=
  ∀ index, ∀ dep ∈ entry closure index, TransGen (IsDep depsMap) dep index

theorem sound_self (depsMap : List (Finset Nat)) : Sound depsMap depsMap :=
  fun _ _ mem => TransGen.single mem

theorem Sound.extendDeps {refDeps closure : List (Finset Nat)} (sound : Sound depsMap closure)
    (soundRef : Sound depsMap refDeps) (index : Nat) :
    Sound depsMap (extendDeps refDeps closure index) := by
  intro other dep mem
  rcases mem_entry_extendDeps mem with old | ⟨here, between, first, second⟩
  · exact sound other dep old
  · rw [here]
    exact (soundRef between dep second).trans (sound index between first)

theorem sound_depsMapClosure (depsMap : List (Finset Nat)) :
    Sound depsMap (depsMapClosure depsMap) := by
  refine foldlRecOn _ _ (motive := Sound depsMap) (sound_self depsMap) ?_
  intro closure sound index _
  refine sound.extendDeps ?_ index
  split
  · exact sound_self depsMap
  · exact sound

/-- The first entries hold all transitive dependencies, and the other ones are those of the map. -/
structure CompleteBelow (depsMap : List (Finset Nat)) (count : Nat)
    (closure : List (Finset Nat)) : Prop where
  length_eq : closure.length = depsMap.length
  complete : ∀ index < count, ∀ dep, TransGen (IsDep depsMap) dep index → dep ∈ entry closure index
  unchanged : ∀ index, count ≤ index → entry closure index = entry depsMap index

theorem CompleteBelow.extendDeps {count : Nat} {closure : List (Finset Nat)}
    (completeBelow : CompleteBelow depsMap count closure) (inside : count < depsMap.length)
    (increasing : Increasing (IsDep depsMap)) :
    CompleteBelow depsMap (count + 1) (extendDeps closure closure count) := by
  refine ⟨(length_extendDeps _ _ _).trans completeBelow.length_eq, ?_, ?_⟩
  · intro index below dep path
    rcases Nat.lt_succ_iff_lt_or_eq.mp below with earlier | same
    · exact mem_entry_extendDeps_of_mem (completeBelow.complete index earlier dep path)
    · rw [same] at path ⊢
      have here := completeBelow.unchanged count le_rfl
      cases path with
      | single step =>
        refine mem_entry_extendDeps_of_mem ?_
        rw [here]
        exact step
      | @tail between _ first last =>
        refine mem_entry_extendDeps_of_between ?_ ?_
          (completeBelow.complete between (increasing last) dep first)
        · rw [completeBelow.length_eq]
          exact inside
        · rw [here]
          exact last
  · intro index above
    unfold AsyncDepsInfo.extendDeps
    rw [entry_set, if_neg fun here => by omega]
    exact completeBelow.unchanged index (by omega)

/-- In the full mode, where dependencies have smaller indices, all entries but the last one hold
all transitive dependencies. -/
theorem completeBelow_depsMapClosure (full : performSimplifiedOptimization depsMap = false)
    (increasing : Increasing (IsDep depsMap)) :
    CompleteBelow depsMap (depsMap.length - 1) (depsMapClosure depsMap) := by
  have prefixes : ∀ count ≤ depsMap.length - 1, CompleteBelow depsMap count
      ((range count).foldl
        (fun depsMapClosure index =>
          let refDeps := if performSimplifiedOptimization depsMap then depsMap else depsMapClosure
          extendDeps refDeps depsMapClosure index) depsMap) := by
    intro count
    induction count with
    | zero => exact fun _ => ⟨rfl, fun _ impossible => absurd impossible (Nat.not_lt_zero _),
        fun _ _ => rfl⟩
    | succ count ih =>
      intro bound
      rw [range_succ, foldl_append, foldl_cons, foldl_nil]
      simp only [full, Bool.false_eq_true, if_false] at ih ⊢
      exact (ih (by omega)).extendDeps (by omega) increasing
  exact prefixes _ le_rfl

/-! ### The transitive reduction -/

variable {curDeps : Finset Nat} (closure : List (Finset Nat)) (indices : List Nat)

theorem entry_reduceDeps (map : List (Finset Nat)) (index other : Nat) :
    entry (reduceDeps closure map index) other =
      if other = index then reducedDeps closure (entry map index) else entry map other := by
  unfold reduceDeps
  rw [entry_set]
  by_cases same : other = index
  · rw [if_pos same]
    by_cases inside : index < map.length
    · rw [if_pos ⟨same, inside⟩]
    · have nothing : entry map index = ∅ := getD_eq_default _ _ (by omega)
      rw [if_neg fun both => inside both.2, same, nothing]
      rfl
  · rw [if_neg same, if_neg fun both => same both.1]

theorem length_foldl_reduceDeps (map : List (Finset Nat)) :
    (indices.foldl (reduceDeps closure) map).length = map.length := by
  induction indices generalizing map with
  | nil => rfl
  | cons index rest ih => rw [foldl_cons, ih, length_reduceDeps]

theorem entry_foldl_reduceDeps (nodup : indices.Nodup) (map : List (Finset Nat)) (other : Nat) :
    entry (indices.foldl (reduceDeps closure) map) other =
      if other ∈ indices then reducedDeps closure (entry map other) else entry map other := by
  induction indices generalizing map with
  | nil => rfl
  | cons index rest ih =>
    obtain ⟨absent, nodupRest⟩ := nodup_cons.mp nodup
    rw [foldl_cons, ih nodupRest, entry_reduceDeps]
    by_cases same : other = index
    · rw [same, if_neg absent, if_pos rfl, if_pos mem_cons_self]
    · rw [if_neg same]
      by_cases later : other ∈ rest
      · rw [if_pos later, if_pos (mem_cons_of_mem _ later)]
      · rw [if_neg later, if_neg fun mem => (mem_cons.mp mem).elim same later]

theorem nodup_reducedIndices (size : Nat) : (reducedIndices size).Nodup := by
  unfold reducedIndices
  exact nodup_reverse.mpr nodup_range

theorem length_reducedDepsMap (depsMap : List (Finset Nat)) :
    (reducedDepsMap depsMap).length = depsMap.length :=
  length_foldl_reduceDeps _ _ _

theorem entry_reducedDepsMap (depsMap : List (Finset Nat)) (index : Nat) :
    entry (reducedDepsMap depsMap) index =
      if index ∈ reducedIndices depsMap.length then
        reducedDeps (depsMapClosure depsMap) (entry depsMap index)
      else entry depsMap index :=
  entry_foldl_reduceDeps _ _ (nodup_reducedIndices _) _ _

theorem reducedDeps_subset (curDeps : Finset Nat) : reducedDeps closure curDeps ⊆ curDeps := by
  unfold reducedDeps
  split
  · exact Finset.Subset.refl _
  · exact Finset.sdiff_subset

/-- A dependency is erased because of another one that has it in its closure. -/
theorem exists_of_notMem_reducedDeps {closure : List (Finset Nat)} (mem : dep ∈ curDeps)
    (erased : dep ∉ reducedDeps closure curDeps) :
    ∃ between ∈ curDeps, dep ∈ entry closure between := by
  unfold reducedDeps at erased
  split at erased
  · exact absurd mem erased
  · by_contra kept
    exact erased (Finset.mem_sdiff.mpr ⟨mem, fun found => kept (Finset.mem_biUnion.mp found)⟩)

theorem notMem_entry_of_mem_reducedDeps {closure : List (Finset Nat)} {between : Nat}
    (left : dep ∈ reducedDeps closure curDeps) (other : between ∈ curDeps)
    (different : between ≠ dep) : dep ∉ entry closure between := by
  have mem := reducedDeps_subset closure curDeps left
  have several : 1 < curDeps.card := Finset.one_lt_card.mpr ⟨between, other, dep, mem, different⟩
  unfold reducedDeps at left
  rw [if_neg (by omega)] at left
  exact fun found => (Finset.mem_sdiff.mp left).2 (Finset.mem_biUnion.mpr ⟨between, other, found⟩)

theorem isDep_of_isDep_reducedDepsMap (kept : IsDep (reducedDepsMap depsMap) dep index) :
    IsDep depsMap dep index := by
  unfold IsDep at kept
  rw [entry_reducedDepsMap] at kept
  split at kept
  · exact reducedDeps_subset _ _ kept
  · exact kept

theorem bypassed_reducedDepsMap (depsMap : List (Finset Nat)) :
    Bypassed (IsDep depsMap) (IsDep (reducedDepsMap depsMap)) := by
  intro dep index step
  by_cases kept : IsDep (reducedDepsMap depsMap) dep index
  · exact .inl kept
  · have erased := kept
    unfold IsDep at erased
    rw [entry_reducedDepsMap] at erased
    split at erased
    · obtain ⟨between, mem, found⟩ := exists_of_notMem_reducedDeps step erased
      exact .inr ⟨between, sound_depsMapClosure depsMap between dep found, TransGen.single mem⟩
    · exact absurd step erased

/-- What the full mode leaves is not bypassed where dependencies have smaller indices. -/
theorem direct_reducedDepsMap (full : performSimplifiedOptimization depsMap = false)
    (increasing : Increasing (IsDep depsMap)) (dep index : Nat)
    (kept : IsDep (reducedDepsMap depsMap) dep index) :
    ¬ ∃ middle, TransGen (IsDep depsMap) dep middle ∧ TransGen (IsDep depsMap) middle index := by
  rintro ⟨middle, first, second⟩
  have inside := lt_length_of_isDep (isDep_of_isDep_reducedDepsMap kept)
  have small : depsMap.length < 2 ^ 31 := by
    unfold performSimplifiedOptimization simplifiedOptimizationOpCountThreshold at full
    have bound := of_decide_eq_false full
    omega
  -- The last edge of the path leads to the operation from a transitive user of the dependency.
  obtain ⟨last, reached, step⟩ := TransGen.tail'_iff.mp second
  have path : TransGen (IsDep depsMap) dep last := first.trans_left reached
  have found := (completeBelow_depsMapClosure full increasing).complete last
    (by have less := increasing step; omega) dep path
  have left := kept
  unfold IsDep at left
  rw [entry_reducedDepsMap, reducedIndices_eq small, if_pos
    (mem_reverse.mpr (mem_range.mpr inside))] at left
  refine notMem_entry_of_mem_reducedDeps left step ?_ found
  exact (increasing.lt_of_transGen path).ne'

/-! ### The optimization -/

/-- The consumer map is built anew if it was built before. -/
def optimizeDepsMap (info : AsyncDepsInfo) : AsyncDepsInfo :=
  let optimized : AsyncDepsInfo :=
    { depsMap := reducedDepsMap info.depsMap
      consumerMap := info.consumerMap
      depsInRange := by
        intro deps present dep mem
        obtain ⟨index, isDep⟩ := isDep_of_mem present mem
        obtain ⟨old, oldPresent, oldMember⟩ := mem_of_isDep (isDep_of_isDep_reducedDepsMap isDep)
        rw [length_reducedDepsMap]
        exact info.depsInRange old oldPresent dep oldMember }
  if info.consumerMap.isEmpty then optimized
  else buildConsMap { optimized with consumerMap := [] }

variable (info : AsyncDepsInfo)

theorem depsMap_optimizeDepsMap : (optimizeDepsMap info).depsMap = reducedDepsMap info.depsMap := by
  unfold optimizeDepsMap
  split <;> rfl

theorem lt_length_of_isDep_info (isDep : IsDep info.depsMap dep index) :
    dep < info.depsMap.length := by
  obtain ⟨deps, present, mem⟩ := mem_of_isDep isDep
  exact info.depsInRange deps present dep mem

/-- The optimization keeps reachability in both modes, whatever the order of the indices. The full
mode finds the only transitive reduction where dependencies have smaller indices. -/
theorem optimizeDepsMap_reduces (info : AsyncDepsInfo) (acyclic : Acyclic (IsDep info.depsMap)) :
    SameReachability (IsDep info.depsMap) (IsDep (optimizeDepsMap info).depsMap) ∧
      (performSimplifiedOptimization info.depsMap = false →
        (∀ dep index, IsDep info.depsMap dep index → dep < index) →
        ∀ reduced, TransitiveReduction (IsDep info.depsMap) reduced ↔
          reduced = IsDep (optimizeDepsMap info).depsMap) := by
  rw [depsMap_optimizeDepsMap]
  have same : SameReachability (IsDep info.depsMap) (IsDep (reducedDepsMap info.depsMap)) :=
    acyclic.sameReachability (fun _ _ => lt_length_of_isDep_info info)
      (bypassed_reducedDepsMap info.depsMap) fun _ _ => isDep_of_isDep_reducedDepsMap
  refine ⟨same, fun full smaller reduced => ?_⟩
  exact transitiveReduction_iff same (fun _ _ => isDep_of_isDep_reducedDepsMap)
    (direct_reducedDepsMap full fun {dep index} => smaller dep index) reduced

/-- The full mode leaves nothing to erase. -/
theorem optimizeDepsMap_idempotent (full : performSimplifiedOptimization info.depsMap = false)
    (increasing : Increasing (IsDep info.depsMap)) :
    (optimizeDepsMap (optimizeDepsMap info)).depsMap = (optimizeDepsMap info).depsMap := by
  rw [depsMap_optimizeDepsMap, depsMap_optimizeDepsMap]
  refine List.ext_getElem (length_reducedDepsMap _) fun index first second => ?_
  rw [← List.getD_eq_getElem _ ∅ first, ← List.getD_eq_getElem _ ∅ second]
  refine Finset.Subset.antisymm (fun dep => isDep_of_isDep_reducedDepsMap) fun dep kept => ?_
  obtain still | ⟨middle, before, behind⟩ := bypassed_reducedDepsMap _ kept
  · exact still
  · have older := fun dep index => @isDep_of_isDep_reducedDepsMap info.depsMap dep index
    exact absurd ⟨middle, TransGen.mono older _ _ before, TransGen.mono older _ _ behind⟩
      (direct_reducedDepsMap full increasing dep index kept)

/-- The last of four operations depends on all others, two of which depend on the first one. -/
def diamond : AsyncDepsInfo := ⟨[∅, {0}, {0}, {0, 1, 2}], [], by decide⟩

theorem diamond_smaller (dep index : Nat) (isDep : IsDep diamond.depsMap dep index) :
    dep < index := by
  have each : ∀ index < 4, ∀ dep ∈ entry diamond.depsMap index, dep < index := by decide
  exact each index (lt_length_of_isDep isDep) dep isDep

example : (optimizeDepsMap diamond).depsMap = [∅, {0}, {0}, {1, 2}] := by decide +kernel

theorem optimizeDepsMap_reduces_diamond :
    SameReachability (IsDep diamond.depsMap) (IsDep (optimizeDepsMap diamond).depsMap) ∧
      ∀ reduced, TransitiveReduction (IsDep diamond.depsMap) reduced ↔
        reduced = IsDep (optimizeDepsMap diamond).depsMap := by
  have increasing : Increasing (IsDep diamond.depsMap) := fun {dep index} => diamond_smaller
    dep index
  have reduces := optimizeDepsMap_reduces diamond increasing.acyclic
  exact ⟨reduces.1, reduces.2 rfl diamond_smaller⟩

theorem optimizeDepsMap_idempotent_diamond :
    (optimizeDepsMap (optimizeDepsMap diamond)).depsMap = (optimizeDepsMap diamond).depsMap :=
  optimizeDepsMap_idempotent diamond rfl fun {dep index} => diamond_smaller dep index

end AsyncDepsInfo

namespace AsyncDepsInfo

variable {depsMap map : List (Finset Nat)} {dep index other : Nat} (info : AsyncDepsInfo)

/-! ### Changes of both maps -/

/-- Both operations are looked up, and an invalid index is thrown. -/
def addDependency (source sink : Nat) : Except Nat AsyncDepsInfo :=
  if inside : source < info.depsMap.length ∧ sink < info.depsMap.length then
    .ok {
      depsMap := info.depsMap.modify sink (insert source)
      consumerMap := if info.consumerMap.isEmpty then info.consumerMap
        else info.consumerMap.modify source (insert sink)
      depsInRange := by
        intro deps mem dep isDep
        rw [length_modify]
        obtain ⟨index, within, rfl⟩ := mem_iff_getElem.mp mem
        rw [length_modify] at within
        rw [getElem_modify] at isDep
        split at isDep
        · rcases Finset.mem_insert.mp isDep with same | old
          · exact same ▸ inside.1
          · exact info.depsInRange _ (getElem_mem within) dep old
        · exact info.depsInRange _ (getElem_mem within) dep isDep }
  else .error (if source < info.depsMap.length then sink else source)

/-- `addExecOp` inserts the operands of an operation. -/
def insertDeps (index : Nat) (deps : Finset Nat)
    (inside : ∀ dep ∈ deps, dep < info.depsMap.length) : AsyncDepsInfo where
  depsMap := info.depsMap.modify index (deps ∪ ·)
  consumerMap := info.consumerMap
  depsInRange := by
    intro members mem dep isDep
    rw [length_modify]
    obtain ⟨other, within, rfl⟩ := mem_iff_getElem.mp mem
    rw [length_modify] at within
    rw [getElem_modify] at isDep
    split at isDep
    · exact (Finset.mem_union.mp isDep).elim (inside dep)
        (info.depsInRange _ (getElem_mem within) dep)
    · exact info.depsInRange _ (getElem_mem within) dep isDep

theorem entry_modify (change : Finset Nat → Finset Nat) (inside : index < map.length)
    (other : Nat) : entry (map.modify index change) other =
      if index = other then change (entry map other) else entry map other := by
  unfold entry
  rw [getD_eq_getElem?_getD, getD_eq_getElem?_getD, getElem?_modify]
  split
  · next same =>
    rw [← same, getElem?_eq_getElem inside]
    rfl
  · rw [id_map']

theorem entry_resize {size : Nat} (larger : map.length ≤ size) :
    entry (resize map size) index = entry map index := by
  unfold entry resize
  rw [take_of_length_le larger, getD_eq_getElem?_getD, getD_eq_getElem?_getD, getElem?_append]
  split
  · rfl
  · rw [getElem?_replicate, getElem?_eq_none (by omega)]
    split <;> rfl

/-- Both maps are resized, also when the consumer map was not built. -/
def preAllocateForNewOps (numOfNewOps : Nat) : AsyncDepsInfo where
  depsMap := resize info.depsMap (info.depsMap.length + numOfNewOps)
  consumerMap := resize info.consumerMap (info.depsMap.length + numOfNewOps)
  depsInRange := by
    intro members present dep mem
    obtain ⟨other, isDep⟩ := isDep_of_mem present mem
    unfold IsDep at isDep
    rw [entry_resize (Nat.le_add_right _ _)] at isDep
    have less := lt_length_of_isDep_info info isDep
    rw [resize, length_append, length_take, length_replicate]
    omega

theorem length_resize (map : List (Finset Nat)) (size : Nat) : (resize map size).length = size := by
  rw [resize, length_append, length_take, length_replicate]
  omega

/-! ### The consumer map -/

/-- The consumer map says the same as the dependency map. -/
structure Mirrored : Prop where
  length_le : info.consumerMap.length ≤ info.depsMap.length
  mem_iff : ∀ dep index, index ∈ entry info.consumerMap dep ↔ IsDep info.depsMap dep index

/-- A consumer map is taken to be in use when it has entries. -/
def Transposed : Prop :=
  info.consumerMap ≠ [] → info.depsMap.length ≤ info.consumerMap.length ∧ info.Mirrored

variable {consumerMap : List (Finset Nat)} {bit : Nat}

theorem mem_entry_insertConsumer
    (inside : bit < consumerMap.length) :
    other ∈ entry (insertConsumer depsMap consumerMap index) bit ↔
      other ∈ entry consumerMap bit ∨ other = index ∧ IsDep depsMap bit index := by
  have here : entry consumerMap bit = consumerMap[bit] := getD_eq_getElem _ _ inside
  change other ∈ (mapIdx _ consumerMap).getD bit ∅ ↔ _
  rw [getD_eq_getElem _ _ (by rwa [length_mapIdx]), getElem_mapIdx, here]
  by_cases isDep : bit ∈ entry depsMap index
  · rw [if_pos isDep, Finset.mem_insert, or_comm]
    exact or_congr Iff.rfl (and_iff_left isDep).symm
  · rw [if_neg isDep]
    exact (or_iff_left fun added => isDep added.2).symm

theorem length_foldl_insertConsumer (consumerMap : List (Finset Nat)) (indices : List Nat) :
    (indices.foldl (insertConsumer depsMap) consumerMap).length = consumerMap.length := by
  induction indices generalizing consumerMap with
  | nil => rfl
  | cons index rest ih => rw [foldl_cons, ih, insertConsumer, length_mapIdx]

theorem mem_entry_foldl_insertConsumer
    (inside : bit < consumerMap.length) (indices : List Nat) :
    other ∈ entry (indices.foldl (insertConsumer depsMap) consumerMap) bit ↔
      other ∈ entry consumerMap bit ∨ other ∈ indices ∧ IsDep depsMap bit other := by
  induction indices generalizing consumerMap with
  | nil => simp
  | cons index rest ih =>
    rw [foldl_cons, ih (by rwa [insertConsumer, length_mapIdx]), mem_entry_insertConsumer inside,
      mem_cons, or_assoc]
    grind

variable {info}

theorem Transposed.length_le (transposed : info.Transposed) :
    info.consumerMap.length ≤ info.depsMap.length := by
  by_cases inUse : info.consumerMap = []
  · rw [inUse]
    exact Nat.zero_le _
  · exact (transposed inUse).2.length_le

theorem Transposed.isDep (transposed : info.Transposed)
    (mem : index ∈ entry info.consumerMap dep) : IsDep info.depsMap dep index := by
  by_cases inUse : info.consumerMap = []
  · rw [inUse] at mem
    exact absurd mem (Finset.notMem_empty index)
  · exact ((transposed inUse).2.mem_iff dep index).mp mem

/-- What the map holds already are dependencies, and the others are added. -/
theorem Transposed.buildConsMap (transposed : info.Transposed) : info.buildConsMap.Transposed := by
  have size : info.buildConsMap.consumerMap.length = info.depsMap.length :=
    (length_foldl_insertConsumer _ _).trans (length_resize _ _)
  refine fun _ => ⟨size.ge, size.le, fun dep index => ?_⟩
  by_cases inside : dep < info.depsMap.length
  · unfold AsyncDepsInfo.buildConsMap
    rw [mem_entry_foldl_insertConsumer (by rwa [length_resize]), entry_resize transposed.length_le]
    refine ⟨fun mem => mem.elim transposed.isDep And.right, fun isDep => ?_⟩
    exact .inr ⟨mem_range.mpr (lt_length_of_isDep isDep), isDep⟩
  · exact iff_of_false (fun mem => inside (size ▸ lt_length_of_isDep mem)) fun isDep =>
      inside (lt_length_of_isDep_info info isDep)

theorem transposed_optimizeDepsMap (info : AsyncDepsInfo) : info.optimizeDepsMap.Transposed := by
  unfold AsyncDepsInfo.optimizeDepsMap
  dsimp only
  split
  · next none => exact fun inUse => absurd (isEmpty_iff.mp none) inUse
  · exact Transposed.buildConsMap fun inUse => absurd rfl inUse

theorem Transposed.addDependency {after : AsyncDepsInfo} (transposed : info.Transposed)
    (res : info.addDependency dep index = .ok after) :
    after.Transposed ∧ after.depsMap.length = info.depsMap.length := by
  unfold AsyncDepsInfo.addDependency at res
  split at res
  · next inside =>
    cases res
    refine ⟨fun inUse => ?_, length_modify ..⟩
    dsimp only at inUse ⊢
    split at inUse
    · next none => exact absurd (isEmpty_iff.mp none) inUse
    · next some =>
      obtain ⟨length, mirrored⟩ := transposed fun none => some (isEmpty_iff.mpr none)
      refine ⟨by simpa [some], by simpa [some] using mirrored.length_le, fun other user => ?_⟩
      unfold IsDep
      rw [if_neg some, entry_modify _ inside.2, entry_modify _ (inside.1.trans_le length)]
      have before := mirrored.mem_iff other user
      unfold IsDep at before
      grind
  · cases res

theorem Transposed.insertDeps {operands : Finset Nat} (transposed : info.Transposed)
    (inside : ∀ dep ∈ operands, dep < info.depsMap.length)
    (safe : info.consumerMap = [] ∨ operands = ∅) :
    (info.insertDeps index operands inside).Transposed := by
  intro inUse
  obtain rfl := safe.resolve_left inUse
  obtain ⟨length, mirrored⟩ := transposed inUse
  have same : info.depsMap.modify index (∅ ∪ ·) = info.depsMap :=
    (congrArg _ (funext Finset.empty_union)).trans (modify_id ..)
  refine ⟨(length_modify ..).trans_le length, mirrored.length_le.trans (length_modify ..).ge,
    fun dep user => ?_⟩
  exact (mirrored.mem_iff dep user).trans (iff_of_eq (congrArg (IsDep · dep user) same.symm))

theorem Mirrored.preAllocateForNewOps (mirrored : info.Mirrored) (numOfNewOps : Nat) :
    (info.preAllocateForNewOps numOfNewOps).Transposed := by
  intro _
  refine ⟨((length_resize _ _).trans (length_resize _ _).symm).le,
    ((length_resize _ _).trans (length_resize _ _).symm).le, fun dep index => ?_⟩
  unfold AsyncDepsInfo.preAllocateForNewOps IsDep
  rw [entry_resize (mirrored.length_le.trans (Nat.le_add_right _ _)),
    entry_resize (Nat.le_add_right _ _)]
  exact mirrored.mem_iff dep index

/-! ### Any sequence of changes -/

inductive Change
  | addDependency (dep index : Nat)
  | insertNewExecOpToDepsMap (operands : Finset Nat)
  | preAllocateForNewOps (numOfNewOps : Nat)
  | optimizeDepsMap
  | buildConsMap

end AsyncDepsInfo

/-- The maps with `_execOpCount`. `_allExecOps` has an entry for each one of the dependency map, and
those in front are in use. -/
structure ExecOps where
  info : AsyncDepsInfo
  execOpCount : Nat

namespace ExecOps

open AsyncDepsInfo

variable (ops : ExecOps)

/-- Each operation has its operands. -/
def buildDepsMap (operands : List (Finset Nat))
    (inRange : ∀ deps ∈ operands, ∀ dep ∈ deps, dep < operands.length) : ExecOps :=
  ⟨⟨operands, [], inRange⟩, operands.length⟩

/-- Where the new operation is put there is an entry. -/
def withRoom : AsyncDepsInfo :=
  if ops.execOpCount = ops.info.depsMap.length then ops.info.preAllocateForNewOps 1 else ops.info

/-- An operation that is not there has no index, and no other operands are supported. -/
def apply : Change → Option ExecOps
  | .addDependency dep index =>
    match ops.info.addDependency dep index with
    | .ok info =>
      if dep < ops.execOpCount ∧ index < ops.execOpCount then some { ops with info } else none
    | .error _ => none
  | .insertNewExecOpToDepsMap operands =>
    if inside : (∀ dep ∈ operands, dep < ops.withRoom.depsMap.length) ∧
        ∀ dep ∈ operands, dep < ops.execOpCount then
      some ⟨ops.withRoom.insertDeps ops.execOpCount operands inside.1, ops.execOpCount + 1⟩
    else none
  | .preAllocateForNewOps numOfNewOps =>
    some { ops with info := ops.info.preAllocateForNewOps numOfNewOps }
  | .optimizeDepsMap => some { ops with info := ops.info.optimizeDepsMap }
  | .buildConsMap => some { ops with info := ops.info.buildConsMap }

/-- Entries are only added to a consumer map that was built, or when there are no dependencies. -/
def Extensible : Prop := ops.info.consumerMap ≠ [] ∨ ∀ deps ∈ ops.info.depsMap, deps = ∅

/-- The steps that do not leave the consumer map behind. -/
def Safe : Change → Prop
  | .insertNewExecOpToDepsMap operands =>
    (ops.execOpCount = ops.info.depsMap.length → ops.Extensible) ∧
      (ops.withRoom.consumerMap = [] ∨ operands = ∅)
  | .preAllocateForNewOps _ => ops.Extensible
  | _ => True

/-- The states that safe steps lead to from the operations of a function. -/
inductive Reached : ExecOps → Prop
  | built {operands : List (Finset Nat)}
      (inRange : ∀ deps ∈ operands, ∀ dep ∈ deps, dep < operands.length) :
      Reached (buildDepsMap operands inRange)
  | changed {ops after : ExecOps} (change : Change) (reached : Reached ops)
      (safe : ops.Safe change) (res : ops.apply change = some after) : Reached after

variable {ops}

theorem Extensible.preAllocateForNewOps (extensible : ops.Extensible)
    (transposed : ops.info.Transposed) (numOfNewOps : Nat) :
    (ops.info.preAllocateForNewOps numOfNewOps).Transposed := by
  refine Mirrored.preAllocateForNewOps ?_ numOfNewOps
  by_cases inUse : ops.info.consumerMap = []
  · refine ⟨transposed.length_le, fun dep index => ⟨transposed.isDep, fun isDep => ?_⟩⟩
    obtain ⟨deps, present, mem⟩ := mem_of_isDep isDep
    rw [extensible.resolve_left (fun some => some inUse) deps present] at mem
    exact absurd mem (Finset.notMem_empty dep)
  · exact (transposed inUse).2

/-- A safe step keeps the maps in agreement and the operations in the dependency map. -/
theorem apply_transposed {change : Change} {after : ExecOps} (safe : ops.Safe change)
    (res : ops.apply change = some after) (transposed : ops.info.Transposed)
    (bound : ops.execOpCount ≤ ops.info.depsMap.length) :
    after.info.Transposed ∧ after.execOpCount ≤ after.info.depsMap.length := by
  cases change with
  | addDependency dep index =>
    dsimp only [apply] at res
    split at res
    · next added =>
      cases (Option.ite_none_right_eq_some.mp res).2
      have kept := transposed.addDependency added
      exact ⟨kept.1, bound.trans_eq kept.2.symm⟩
    · cases res
  | insertNewExecOpToDepsMap operands =>
    obtain ⟨inside, res⟩ := Option.dite_none_right_eq_some.mp res
    cases res
    have room : ops.withRoom.Transposed ∧ ops.execOpCount < ops.withRoom.depsMap.length := by
      unfold withRoom
      split
      · next full =>
        refine ⟨(safe.1 full).preAllocateForNewOps transposed 1, ?_⟩
        exact (Nat.lt_succ_of_le full.le).trans_eq (length_resize _ _).symm
      · next free => exact ⟨transposed, bound.lt_of_ne free⟩
    exact ⟨room.1.insertDeps inside.1 safe.2, room.2.trans_eq (length_modify ..).symm⟩
  | preAllocateForNewOps numOfNewOps =>
    cases res
    refine ⟨Extensible.preAllocateForNewOps safe transposed numOfNewOps, ?_⟩
    exact (bound.trans (Nat.le_add_right _ _)).trans_eq (length_resize _ _).symm
  | optimizeDepsMap =>
    cases res
    refine ⟨transposed_optimizeDepsMap _, ?_⟩
    rw [depsMap_optimizeDepsMap, length_reducedDepsMap]
    exact bound
  | buildConsMap =>
    cases res
    exact ⟨transposed.buildConsMap, bound⟩

/-- In every state that safe steps lead to, a consumer map in use is the transpose. -/
theorem Reached.transposed (reached : Reached ops) (inUse : ops.info.consumerMap ≠ [])
    (dep index : Nat) :
    index ∈ entry ops.info.consumerMap dep ↔ dep ∈ entry ops.info.depsMap index := by
  have both : ops.info.Transposed ∧ ops.execOpCount ≤ ops.info.depsMap.length := by
    clear inUse
    induction reached with
    | built inRange => exact ⟨fun inUse => absurd rfl inUse, le_rfl⟩
    | changed change reached safe res ih => exact apply_transposed safe res ih.1 ih.2
  exact (both.1 inUse).2.mem_iff dep index

/-- The second of two operations has the result of the first one for an operand. -/
def twoOps : ExecOps := buildDepsMap [∅, {0}] (by decide)

theorem twoOps_transposed : ∃ after, ∃ grown : ExecOps, twoOps.apply .buildConsMap = some after ∧
    after.apply (.preAllocateForNewOps 1) = some grown ∧
      (1 ∈ entry grown.info.consumerMap 0 ↔ 0 ∈ entry grown.info.depsMap 1) := by
  refine ⟨_, _, rfl, rfl, ?_⟩
  have used := Reached.changed .buildConsMap (.built twoOps.info.depsInRange) trivial rfl
  exact (used.changed (.preAllocateForNewOps 1) (.inl (by decide)) rfl).transposed (by decide) 0 1

/-- A map that was not built is taken for one in use once entries are allocated. -/
theorem twoOps_not_transposed : ∃ after, twoOps.apply (.preAllocateForNewOps 1) = some after ∧
    after.info.consumerMap ≠ [] ∧ 0 ∈ entry after.info.depsMap 1 ∧
      1 ∉ entry after.info.consumerMap 0 :=
  ⟨_, rfl, by decide, by decide, by decide⟩

end ExecOps

end NpuPlugin
