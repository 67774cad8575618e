/-
This file is about the memory that the cache of folded constants says it uses. Contents are counted
when they are added and when they are removed; what replaces a content that is there already is
counted twice, or not at all.
-/

import Mathlib.Algebra.Ring.Nat
import Mathlib.Algebra.BigOperators.Group.List.Basic
import Mathlib.Data.List.AList

namespace NpuPlugin.ConstantFolding

open List Option

variable {Key Content : Type}

/-- The reference count is how often the content was asked for minus how often it was taken. -/
structure CachedContent (Content : Type) where
  content : Content
  refCount : Int

/-- The contents of the cache, and the `size_t` that counts the memory they use. -/
structure ConstantFoldingCache (Key Content : Type) where
  cache : AList fun _ : Key => CachedContent Content
  memoryUsedCache : Nat

/-- What the cache is set up with. The sizes are those of the types of the keys, and contents with
the same reference count are sorted in any order. -/
structure Setup (Key : Type) where
  totalAllocSize : Key → Nat
  memoryUsageLimit : Nat
  /-- `memoryUsed <= memoryUsageLimit * cacheCleanThreshold` -/
  isClean : Nat → Bool
  sort : List (Key × Int) → List (Key × Int)
  size_lt : ∀ key, totalAllocSize key < 2 ^ 63
  sort_perm : ∀ contents, (sort contents).Perm contents
  sort_sorted : ∀ contents, (sort contents).Pairwise fun first second => first.2 ≤ second.2

namespace Setup

variable [DecidableEq Key] (setup : Setup Key)

/-! ### Operations -/

/-- An insertion keeps the reference count of a key that is there already. -/
def insertContent (cache : AList fun _ : Key => CachedContent Content) (key : Key)
    (content : Content) : AList fun _ : Key => CachedContent Content :=
  match cache.lookup key with
  | some cached => cache.replace key { cached with content := content }
  | none => cache.insert key ⟨content, 1⟩

variable (state : ConstantFoldingCache Key Content) (attr : Key)

def hasContent :
    Bool × ConstantFoldingCache Key Content :=
  match state.cache.lookup attr with
  | some cached => (true, { state with
      cache := state.cache.replace attr { cached with refCount := cached.refCount + 1 } })
  | none => (false, state)

def getContent :
    Option Content × ConstantFoldingCache Key Content :=
  match state.cache.lookup attr with
  | some cached => (some cached.content, { state with
      cache := state.cache.replace attr { cached with refCount := cached.refCount - 1 } })
  | none => (none, state)

def removeContent :
    ConstantFoldingCache Key Content :=
  match state.cache.lookup attr with
  | some _ =>
    ⟨state.cache.erase attr, (state.memoryUsedCache + 2 ^ 64 - setup.totalAllocSize attr) % 2 ^ 64⟩
  | none => state

def removeContents (state : ConstantFoldingCache Key Content) :
    List (Key × Int) → ConstantFoldingCache Key Content
  | [] => state
  | entry :: rest =>
    let state := setup.removeContent state entry.1
    if setup.isClean state.memoryUsedCache then state else removeContents state rest

def cleanUpCache : ConstantFoldingCache Key Content :=
  setup.removeContents state
    (setup.sort (state.cache.entries.map fun entry => (entry.1, entry.2.refCount)))

def isMemoryLimitReached : Bool := setup.memoryUsageLimit ≤ state.memoryUsedCache

def addContent (content : Content) : ConstantFoldingCache Key Content :=
  let state : ConstantFoldingCache Key Content :=
    ⟨insertContent state.cache attr content,
      (state.memoryUsedCache + setup.totalAllocSize attr) % 2 ^ 64⟩
  if setup.isMemoryLimitReached state then setup.cleanUpCache state else state

/-- There is no result for a key that replaces itself, which waits for its own lock. -/
def replaceContentAttr (originalAttr newAttr : Key) :
    Option (Bool × ConstantFoldingCache Key Content) :=
  match state.cache.lookup originalAttr with
  | some original =>
    if newAttr = originalAttr then none
    else some (true, { state with
      cache := (insertContent state.cache newAttr original.content).erase originalAttr })
  | none => some (false, state)

inductive Operation (Key Content : Type)
  | hasContent (attr : Key)
  | getContent (attr : Key)
  | addContent (attr : Key) (content : Content)
  | removeContent (attr : Key)
  | replaceContentAttr (originalAttr newAttr : Key)
  | cleanUpCache

def step :
    Operation Key Content → Option (ConstantFoldingCache Key Content)
  | .hasContent attr => some (hasContent state attr).2
  | .getContent attr => some (getContent state attr).2
  | .addContent attr content => some (setup.addContent state attr content)
  | .removeContent attr => some (setup.removeContent state attr)
  | .replaceContentAttr originalAttr newAttr =>
    (replaceContentAttr state originalAttr newAttr).map Prod.snd
  | .cleanUpCache => some (setup.cleanUpCache state)

def run (operations : List (Operation Key Content)) : Option (ConstantFoldingCache Key Content) :=
  operations.foldlM setup.step state

/-! ### The memory that is used -/

def totalSize (cache : AList fun _ : Key => CachedContent Content) : Nat :=
  (cache.keys.map setup.totalAllocSize).sum

/-- The cache uses what its contents need. Then it uses nothing when it is empty, and no removal
takes more than is used. -/
structure Exact : Prop where
  used : state.memoryUsedCache = setup.totalSize state.cache
  bounded : state.memoryUsedCache < 2 ^ 64
  empty : state.cache.keys = [] → state.memoryUsedCache = 0
  enough : ∀ attr ∈ state.cache, setup.totalAllocSize attr ≤ state.memoryUsedCache

/-- A content that needs memory is added only if it is not there and its size can be counted. A
content that is there is replaced only by one that is not there and has the same size. -/
def Counts : Operation Key Content → Prop
  | .addContent attr _ => (attr ∈ state.cache → setup.totalAllocSize attr = 0) ∧
      setup.totalSize state.cache + setup.totalAllocSize attr < 2 ^ 64
  | .replaceContentAttr originalAttr newAttr => originalAttr ∈ state.cache →
      setup.totalAllocSize originalAttr =
        if newAttr ∈ state.cache then 0 else setup.totalAllocSize newAttr
  | _ => True

variable {setup} {cache : AList fun _ : Key => CachedContent Content}
  {state after : ConstantFoldingCache Key Content} {key : Key}

variable (setup) in
theorem totalSize_erase (mem : key ∈ cache) :
    setup.totalAllocSize key + setup.totalSize (cache.erase key) = setup.totalSize cache := by
  rw [totalSize, AList.keys_erase]
  exact sum_map_erase _ (AList.mem_keys.mp mem)

theorem size_le_total (mem : key ∈ cache) : setup.totalAllocSize key ≤ setup.totalSize cache :=
  (Nat.le_add_right _ _).trans_eq (totalSize_erase setup mem)

/-- What is to be shown is the sum; the rest follows from it. -/
theorem Exact.of_used (used : state.memoryUsedCache = setup.totalSize state.cache)
    (bounded : state.memoryUsedCache < 2 ^ 64) : setup.Exact state := by
  refine ⟨used, bounded, fun none => ?_, fun key mem => used ▸ size_le_total mem⟩
  rw [used, totalSize, none]
  rfl

variable (setup) in
theorem totalSize_insertContent (cache : AList fun _ : Key => CachedContent Content) (key : Key)
    (content : Content) :
    setup.totalSize (insertContent cache key content) =
      setup.totalSize cache + if key ∈ cache then 0 else setup.totalAllocSize key := by
  unfold insertContent
  split
  · rename_i cached found
    have mem : key ∈ cache := AList.lookup_isSome.mp (isSome_of_eq_some found)
    rw [if_pos mem, totalSize, AList.keys_replace, add_zero, totalSize]
  · rename_i missing
    have absent := AList.lookup_eq_none.mp missing
    rw [if_neg absent, totalSize, AList.keys_insert,
      erase_of_not_mem (fun mem => absent (AList.mem_keys.mpr mem)), map_cons,
      sum_cons, add_comm, totalSize]

theorem mem_insertContent {other : Key} (content : Content) (mem : other ∈ cache) :
    other ∈ insertContent cache key content := by
  unfold insertContent
  split
  · exact AList.mem_replace.mpr mem
  · exact (AList.mem_insert cache).mpr (.inr mem)

/-! ### What the operations keep -/

theorem exact_removeContent (exact : setup.Exact state) (attr : Key) :
    setup.Exact (setup.removeContent state attr) := by
  unfold removeContent
  split
  · rename_i cached found
    have mem : attr ∈ state.cache := AList.lookup_isSome.mp (isSome_of_eq_some found)
    have split := totalSize_erase setup mem
    have used := exact.used
    have bounded := exact.bounded
    refine Exact.of_used ?_ ?_ <;> dsimp only <;> omega
  · exact exact

theorem exact_removeContents (contents : List (Key × Int)) (exact : setup.Exact state) :
    setup.Exact (setup.removeContents state contents) := by
  induction contents generalizing state with
  | nil => exact exact
  | cons entry rest ih =>
    have removed := exact_removeContent exact entry.1
    unfold removeContents
    dsimp only
    split
    · exact removed
    · exact ih removed

section

variable (exact : setup.Exact state)
include exact

theorem exact_cleanUpCache : setup.Exact (setup.cleanUpCache state) := exact_removeContents _ exact

theorem exact_addContent {attr : Key} {content : Content}
    (counts : setup.Counts state (.addContent attr content)) :
    setup.Exact (setup.addContent state attr content) := by
  have added : setup.Exact (⟨insertContent state.cache attr content,
      (state.memoryUsedCache + setup.totalAllocSize attr) % 2 ^ 64⟩ :
        ConstantFoldingCache Key Content) := by
    have used := exact.used
    have fits := counts.2
    refine Exact.of_used ?_ (Nat.mod_lt _ (Nat.two_pow_pos 64))
    rw [totalSize_insertContent, Nat.mod_eq_of_lt (by omega), used]
    by_cases mem : attr ∈ state.cache
    · rw [if_pos mem, counts.1 mem]
    · rw [if_neg mem]
  unfold addContent
  dsimp only
  split
  · exact exact_cleanUpCache added
  · exact added

theorem exact_replaceContentAttr {originalAttr newAttr : Key}
    (counts : setup.Counts state (.replaceContentAttr originalAttr newAttr)) {replaced : Bool}
    (res : replaceContentAttr state originalAttr newAttr = some (replaced, after)) :
    setup.Exact after := by
  unfold replaceContentAttr at res
  split at res
  · rename_i original found
    have mem : originalAttr ∈ state.cache := AList.lookup_isSome.mp (isSome_of_eq_some found)
    split at res
    · cases res
    · obtain rfl := (Prod.mk.inj (some.inj res)).2
      have same := counts mem
      have inserted := totalSize_insertContent setup state.cache newAttr original.content
      have kept : originalAttr ∈ insertContent state.cache newAttr original.content :=
        mem_insertContent original.content mem
      have split := totalSize_erase setup kept
      have used := exact.used
      refine Exact.of_used ?_ exact.bounded
      dsimp only
      by_cases present : newAttr ∈ state.cache
      · rw [if_pos present] at same inserted
        omega
      · rw [if_neg present] at same inserted
        omega
  · obtain rfl := (Prod.mk.inj (some.inj res)).2
    exact exact

theorem exact_replace (attr : Key) (cached : CachedContent Content) :
    setup.Exact { state with cache := state.cache.replace attr cached } := by
  refine Exact.of_used ?_ exact.bounded
  rw [totalSize, AList.keys_replace]
  exact exact.used

theorem exact_step {operation : Operation Key Content} (counts : setup.Counts state operation)
    (res : setup.step state operation = some after) : setup.Exact after := by
  cases operation with
  | hasContent attr =>
    obtain rfl := some.inj res
    unfold hasContent
    split
    · exact exact_replace exact attr _
    · exact exact
  | getContent attr =>
    obtain rfl := some.inj res
    unfold getContent
    split
    · exact exact_replace exact attr _
    · exact exact
  | addContent attr content =>
    obtain rfl := some.inj res
    exact exact_addContent exact counts
  | removeContent attr =>
    obtain rfl := some.inj res
    exact exact_removeContent exact attr
  | replaceContentAttr originalAttr newAttr =>
    obtain ⟨⟨replaced, state⟩, found, rfl⟩ := map_eq_some_iff.mp res
    exact exact_replaceContentAttr exact counts found
  | cleanUpCache =>
    obtain rfl := some.inj res
    exact exact_cleanUpCache exact

end

variable (setup) in
/-- Every operation of a run counts. -/
def AllCount (state : ConstantFoldingCache Key Content) :
    List (Operation Key Content) → Prop
  | [] => True
  | operation :: rest => setup.Counts state operation ∧
      ∀ after, setup.step state operation = some after → AllCount after rest

theorem exact_run {done rest : List (Operation Key Content)} (exact : setup.Exact state)
    (counts : setup.AllCount state (done ++ rest)) (reached : setup.run state done = some after) :
    setup.Exact after := by
  induction done generalizing state with
  | nil => exact some.inj reached ▸ exact
  | cons operation later ih =>
    rw [run, foldlM_cons, bind_eq_bind, bind_eq_some_iff] at reached
    obtain ⟨middle, stepped, continued⟩ := reached
    exact ih (exact_step exact counts.1 stepped) (counts.2 middle stepped)
      continued

/-- In a run whose operations all count, the memory that is used is the sum of the sizes of the
contents, after every operation. -/
theorem memoryUsedCache_exact {done rest : List (Operation Key Content)}
    (counts : setup.AllCount ⟨∅, 0⟩ (done ++ rest))
    (reached : setup.run ⟨∅, 0⟩ done = some state) : setup.Exact state :=
  exact_run (Exact.of_used rfl (Nat.two_pow_pos 64)) counts reached

end Setup

/-- Contents of four bytes, and room for three of them. -/
def fourBytes : Setup Nat where
  totalAllocSize _ := 4
  memoryUsageLimit := 13
  isClean memoryUsed := decide (memoryUsed ≤ 9)
  sort contents := contents.mergeSort fun first second => first.2 ≤ second.2
  size_lt _ := by decide
  sort_perm contents := mergeSort_perm contents _
  sort_sorted contents := by
    refine (pairwise_mergeSort ?_ ?_ contents).imp fun sorted => of_decide_eq_true sorted
    · intro first second third before after
      exact decide_eq_true (Int.le_trans (of_decide_eq_true before) (of_decide_eq_true after))
    · intro first second
      rw [Bool.or_eq_true, decide_eq_true_eq, decide_eq_true_eq]
      exact Int.le_total _ _

theorem memoryUsedCache_exact_removed : ∃ state : ConstantFoldingCache Nat Unit,
    fourBytes.run ⟨∅, 0⟩ [.addContent 1 (), .replaceContentAttr 1 2, .removeContent 2] =
      some state ∧ fourBytes.Exact state := by
  refine ⟨⟨∅, 0⟩, rfl, @Setup.memoryUsedCache_exact Nat Unit _ fourBytes _
    [.addContent 1 (), .replaceContentAttr 1 2, .removeContent 2] [] ?_ rfl⟩
  refine ⟨⟨fun mem => ?_, ?_⟩, fun after added => ⟨fun _ => ?_, fun _ _ =>
    ⟨trivial, fun _ _ => trivial⟩⟩⟩
  · exact absurd mem (AList.notMem_empty 1)
  · decide
  · cases added
    rfl

/-- The content of a key replaces that of another one, and both have been counted. When it is
removed, four bytes are used and there is no content. The same happens when a content is added
again. -/
theorem memoryUsedCache_drifts :
    (∃ state : ConstantFoldingCache Nat Unit,
      fourBytes.run ⟨∅, 0⟩ [.addContent 1 (), .addContent 2 (), .replaceContentAttr 1 2,
        .removeContent 2] = some state ∧ state.cache.keys = [] ∧ state.memoryUsedCache = 4) ∧
    ∃ state : ConstantFoldingCache Nat Unit,
      fourBytes.run ⟨∅, 0⟩ [.addContent 1 (), .addContent 1 ()] = some state ∧
        fourBytes.totalSize state.cache = 4 ∧ state.memoryUsedCache = 8 :=
  ⟨⟨_, rfl, rfl, rfl⟩, _, rfl, rfl, rfl⟩

end NpuPlugin.ConstantFolding
