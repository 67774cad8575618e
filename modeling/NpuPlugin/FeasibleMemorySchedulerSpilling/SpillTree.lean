/-
This file follows the optimisation of the spills of data operations over all of them: the tree has
the places of the entries of each operation that is spilled, and what is done for one operation
leaves the entries of the others.
-/

import Mathlib.Data.List.Sort
import NpuPlugin.FeasibleMemorySchedulerSpilling.Relocation

namespace NpuPlugin.FeasibleMemorySchedulerSpilling

open Bool FeasibleMemoryScheduler List Nat

variable {context : Context} {scheduledOps : List ScheduledOpInfo}

/-! ### The entries of a data operation -/

def isEntryOf (op : Nat) (info : ScheduledOpInfo) : Bool := info.isDataOp && info.op = op

def dataPlaces (scheduledOps : List ScheduledOpInfo) (op : Nat) : List Nat :=
  (scheduledOps.zipIdx.filter fun entry => isEntryOf op entry.1).map Prod.snd

variable {op place later : Nat} {chain : List ScheduledOpInfo} {other : ScheduledOpInfo}

theorem isEntryOf_iff : isEntryOf op info = true ↔ info.isDataOp = true ∧ info.op = op := by
  rw [isEntryOf, and_eq_true, decide_eq_true_eq]

theorem mem_dataPlaces :
    place ∈ dataPlaces scheduledOps op ↔
      ∃ info, scheduledOps[place]? = some info ∧ isEntryOf op info = true := by
  simp only [dataPlaces, mem_map, mem_filter, Prod.exists,
    mk_mem_zipIdx_iff_getElem?, exists_eq_right]

theorem isEntryOf_of_mem_dataPlaces (listed : place ∈ dataPlaces scheduledOps op)
    (stands : scheduledOps[place]? = some info) : isEntryOf op info = true := by
  obtain ⟨other, found, entry⟩ := mem_dataPlaces.mp listed
  rw [stands] at found
  exact Option.some.inj found ▸ entry

theorem op_eq_of_mem_dataPlaces {other : Nat} (listed : place ∈ dataPlaces scheduledOps op)
    (listed_other : place ∈ dataPlaces scheduledOps other) : op = other := by
  obtain ⟨info, found, entry⟩ := mem_dataPlaces.mp listed
  obtain ⟨same, found_same, entry_other⟩ := mem_dataPlaces.mp listed_other
  rw [found] at found_same
  obtain rfl := Option.some.inj found_same
  exact (isEntryOf_iff.mp entry).2.symm.trans (isEntryOf_iff.mp entry_other).2

theorem dataPlaces_pairwise (scheduledOps : List ScheduledOpInfo) (op : Nat) :
    (dataPlaces scheduledOps op).Pairwise (· < ·) := by
  have numbers : (scheduledOps.zipIdx.map Prod.snd).Pairwise (· < ·) := by
    rw [zipIdx_map_snd]
    exact pairwise_lt_range'
  exact numbers.sublist (filter_sublist.map Prod.snd)

theorem standAt_dataPlaces (scheduledOps : List ScheduledOpInfo) (op : Nat) :
    StandAt scheduledOps (dataPlaces scheduledOps op) (scheduledOps.filter (isEntryOf op)) := by
  have entries : scheduledOps.filter (isEntryOf op) =
      (scheduledOps.zipIdx.filter fun entry => isEntryOf op entry.1).map Prod.fst := by
    conv_lhs => rw [← zipIdx_map_fst 0 scheduledOps, filter_map]
    rfl
  rw [entries, dataPlaces, StandAt, forall₂_map_left_iff, forall₂_map_right_iff, forall₂_same]
  intro entry mem
  exact mk_mem_zipIdx_iff_getElem?.mp (mem_of_mem_filter mem)

theorem isSpill_of_isReadChain (reads : IsReadChain chain) :
    ∀ info ∈ chain, isSpill info = true := by
  induction chain using IsReadChain.induct with
  | case1 => simp
  | case2 info => exact forall_mem_singleton.mpr (isSpill_of_isSpillRead reads)
  | case3 info nextInfo chain ih =>
    obtain ⟨isRead, isWrite, reads⟩ := reads
    exact forall_mem_cons.mpr ⟨isSpill_of_isSpillRead isRead,
      forall_mem_cons.mpr ⟨isSpill_of_isSpillWrite isWrite, ih reads⟩⟩

theorem isSpill_of_isDataChain (isChain : IsDataChain chain) :
    ∀ info ∈ chain.tail, isSpill info = true := by
  match chain with
  | [] => simp
  | [info] => simp
  | info :: nextInfo :: chain =>
    obtain ⟨-, isWrite, reads⟩ := isChain
    exact forall_mem_cons.mpr ⟨isSpill_of_isSpillWrite isWrite, isSpill_of_isReadChain reads⟩

theorem StandAt.mem_tail {places : List Nat} (standAt : StandAt scheduledOps places chain)
    (ascending : places.Pairwise (· < ·)) (mem : place ∈ places) (member_later : later ∈ places)
    (before : place < later) (stands_later : scheduledOps[later]? = some other) :
    other ∈ chain.tail := by
  cases standAt with
  | nil => exact absurd mem (by simp)
  | cons here rest =>
    obtain ⟨above, -⟩ := pairwise_cons.mp ascending
    rcases mem_cons.mp member_later with rfl | inside
    · rcases mem_cons.mp mem with rfl | inside
      · exact absurd before (lt_irrefl _)
      · exact absurd (before.trans (above _ inside)) (lt_irrefl _)
    · obtain ⟨info, in_chain, found⟩ := exists_of_standAt rest later inside
      rw [stands_later] at found
      exact Option.some.inj found ▸ in_chain

variable {info : ScheduledOpInfo}

/-- An entry of a data operation behind another one of it is a spill. -/
theorem isSpill_of_later (isChain : IsDataChain (scheduledOps.filter (isEntryOf op)))
    (stands : scheduledOps[place]? = some info) (entry : isEntryOf op info = true)
    (stands_later : scheduledOps[later]? = some other) (entry_later : isEntryOf op other = true)
    (before : place < later) : isSpill other = true :=
  isSpill_of_isDataChain isChain other
    ((standAt_dataPlaces scheduledOps op).mem_tail (dataPlaces_pairwise scheduledOps op)
      (mem_dataPlaces.mpr ⟨info, stands, entry⟩)
      (mem_dataPlaces.mpr ⟨other, stands_later, entry_later⟩) before stands_later)

/-! ### Building the tree -/

/-- The entries of an operation are all of a data operation or none is, and those of a data
operation are an `ORIGINAL`, then spill writes and spill reads in turn. -/
structure DataChains (scheduledOps : List ScheduledOpInfo) : Prop where
  kind : ∀ info ∈ scheduledOps, ∀ other ∈ scheduledOps, info.op = other.op →
    info.isDataOp = other.isDataOp
  chain : ∀ op, IsDataChain (scheduledOps.filter (isEntryOf op))

variable {i origOpIndex : Nat}

theorem findOrigOp_spec (found : findOrigOp scheduledOps op i = some origOpIndex) :
    origOpIndex < i ∧ ∃ info, scheduledOps[origOpIndex]? = some info ∧
      info.isOriginalOp = true ∧ info.op = op := by
  induction i with
  | zero => exact absurd found (by simp [findOrigOp])
  | succ i ih =>
    rw [findOrigOp] at found
    split at found
    · rename_i matching
      obtain rfl := Option.some.inj found
      obtain ⟨info, stands, kind⟩ := (Option.any_eq_true _ _).mp matching
      rw [and_eq_true, decide_eq_true_eq] at kind
      exact ⟨lt_succ_self i, info, stands, kind⟩
    · exact (ih found).imp_left lt_succ_of_lt

/-- The tree when the first `count` entries are seen. -/
structure TreeBuilt (context : Context) (scheduledOps : List ScheduledOpInfo) (count : Nat)
    (tree : SpillTree) : Prop where
  keys : (tree.map Prod.fst).Nodup
  places : ∀ dataOp ∈ tree, HasSingleResult context dataOp.1 ∧
    dataOp.2 = (dataPlaces scheduledOps dataOp.1).filter (· < count)
  spilled : ∀ dataOp ∈ tree, ∃ place info, place < count ∧ scheduledOps[place]? = some info ∧
    isEntryOf dataOp.1 info = true
  complete : ∀ place info, place < count → scheduledOps[place]? = some info →
    isSpill info = true → info.isDataOp = true → HasSingleResult context info.op →
      ∃ dataOp ∈ tree, dataOp.1 = info.op

theorem filter_lt_succ (places : List Nat) (ascending : places.Pairwise (· < ·)) (count : Nat) :
    places.filter (· < count + 1) =
      places.filter (· < count) ++ if count ∈ places then [count] else [] := by
  have sorted := ascending.filter fun place => decide (place < count + 1)
  have split : (places.filter (· < count) ++ if count ∈ places then [count] else []).Pairwise
      (· < ·) := by
    refine pairwise_append.mpr ⟨ascending.filter _, ?_, fun place mem other inside => ?_⟩
    · split <;> simp
    · have below := (mem_filter.mp mem).2
      split at inside
      · rw [mem_singleton.mp inside]
        exact of_decide_eq_true below
      · exact absurd inside not_mem_nil
  refine List.Pairwise.eq_of_mem_iff sorted split fun place => ?_
  by_cases listed : count ∈ places
  · simp only [mem_filter, if_pos listed, mem_append, mem_singleton,
      decide_eq_true_eq, Nat.lt_succ_iff_lt_or_eq]
    constructor
    · rintro ⟨mem, below | rfl⟩
      · exact .inl ⟨mem, below⟩
      · exact .inr rfl
    · rintro (⟨mem, below⟩ | rfl)
      · exact ⟨mem, .inl below⟩
      · exact ⟨listed, .inr rfl⟩
  · simp only [mem_filter, if_neg listed, append_nil, decide_eq_true_eq, Nat.lt_succ_iff_lt_or_eq]
    constructor
    · rintro ⟨mem, below | rfl⟩
      · exact ⟨mem, below⟩
      · exact absurd mem listed
    · exact fun ⟨mem, below⟩ => ⟨mem, .inl below⟩

variable {tree : SpillTree}

theorem TreeBuilt.skip {count : Nat} (chains : DataChains scheduledOps)
    (built : TreeBuilt context scheduledOps count tree) (stands : scheduledOps[count]? = some info)
    (skipped : isSpill info = true → info.isDataOp = true → ¬ HasSingleResult context info.op) :
    TreeBuilt context scheduledOps (count + 1) tree where
  keys := built.keys
  places dataOp mem := by
    obtain ⟨single, places⟩ := built.places dataOp mem
    refine ⟨single, ?_⟩
    rw [filter_lt_succ _ (dataPlaces_pairwise _ _), if_neg, append_nil, places]
    intro listed
    have entry := isEntryOf_of_mem_dataPlaces listed stands
    obtain ⟨place, earlier, before, earlier_stands, earlier_entry⟩ := built.spilled dataOp mem
    have spill := isSpill_of_later (chains.chain dataOp.1) earlier_stands earlier_entry stands entry
      before
    obtain ⟨data, own⟩ := isEntryOf_iff.mp entry
    exact skipped spill data (own ▸ single)
  spilled dataOp mem := by
    obtain ⟨place, earlier, before, found⟩ := built.spilled dataOp mem
    exact ⟨place, earlier, Nat.lt_succ_of_lt before, found⟩
  complete place other before found spill data single := by
    rcases Nat.lt_succ_iff_lt_or_eq.mp before with below | rfl
    · exact built.complete place other below found spill data single
    · rw [stands] at found
      obtain rfl := Option.some.inj found
      exact absurd single (skipped spill data)

section Spill

variable {count : Nat} {tree : SpillTree} {info : ScheduledOpInfo}
  (chains : DataChains scheduledOps) (built : TreeBuilt context scheduledOps count tree)
  (stands : scheduledOps[count]? = some info)

theorem TreeBuilt.complete_succ {after : SpillTree}
    (built : TreeBuilt context scheduledOps count tree) (stands : scheduledOps[count]? = some info)
    (kept : ∀ dataOp ∈ tree, ∃ other ∈ after, other.1 = dataOp.1)
    (here : ∃ dataOp ∈ after, dataOp.1 = info.op) (place : Nat) (other : ScheduledOpInfo)
    (before : place < count + 1) (found : scheduledOps[place]? = some other)
    (spill : isSpill other = true) (data : other.isDataOp = true)
    (single : HasSingleResult context other.op) : ∃ dataOp ∈ after, dataOp.1 = other.op := by
  rcases Nat.lt_succ_iff_lt_or_eq.mp before with below | rfl
  · obtain ⟨dataOp, mem, key⟩ := built.complete place other below found spill data single
    obtain ⟨renamed, inside, same⟩ := kept dataOp mem
    exact ⟨renamed, inside, same.trans key⟩
  · rw [stands] at found
    exact Option.some.inj found ▸ here

include built stands

theorem TreeBuilt.append (listed : count ∈ dataPlaces scheduledOps info.op)
    (others : ∀ op, op ≠ info.op → count ∉ dataPlaces scheduledOps op)
    (present : ∃ dataOp ∈ tree, dataOp.1 = info.op) :
    TreeBuilt context scheduledOps (count + 1) (tree.map fun dataOp =>
      if dataOp.1 = info.op then (dataOp.1, dataOp.2 ++ [count]) else dataOp) := by
  have key : ∀ dataOp : Nat × List Nat,
      (if dataOp.1 = info.op then (dataOp.1, dataOp.2 ++ [count]) else dataOp).1 = dataOp.1 := by
    intro dataOp
    split <;> rfl
  refine ⟨?_, fun changed inside => ?_, fun changed inside => ?_, ?_⟩
  · rw [map_map]
    have keys := built.keys
    rwa [show Prod.fst ∘ (fun dataOp : Nat × List Nat => if dataOp.1 = info.op
      then (dataOp.1, dataOp.2 ++ [count]) else dataOp) = Prod.fst from funext key]
  · obtain ⟨dataOp, mem, rfl⟩ := mem_map.mp inside
    obtain ⟨single, places⟩ := built.places dataOp mem
    rw [key]
    refine ⟨single, ?_⟩
    rw [filter_lt_succ _ (dataPlaces_pairwise _ _)]
    by_cases same : dataOp.1 = info.op
    · rw [if_pos same, if_pos (same ▸ listed), places]
    · rw [if_neg same, if_neg (others _ same), append_nil, places]
  · obtain ⟨dataOp, mem, rfl⟩ := mem_map.mp inside
    obtain ⟨place, earlier, before, found⟩ := built.spilled dataOp mem
    rw [key]
    exact ⟨place, earlier, lt_succ_of_lt before, found⟩
  · refine built.complete_succ stands (fun dataOp mem => ?_) ?_
    · exact ⟨_, mem_map_of_mem mem, key dataOp⟩
    · obtain ⟨dataOp, mem, same⟩ := present
      exact ⟨_, mem_map_of_mem mem, (key dataOp).trans same⟩

include chains

theorem TreeBuilt.cons (entry : isEntryOf info.op info = true)
    (single : HasSingleResult context info.op) (listed : count ∈ dataPlaces scheduledOps info.op)
    (others : ∀ op, op ≠ info.op → count ∉ dataPlaces scheduledOps op)
    (absent : ∀ dataOp ∈ tree, dataOp.1 ≠ info.op)
    (found : findOrigOp scheduledOps info.op count = some origOpIndex) :
    TreeBuilt context scheduledOps (count + 1) (tree ++ [(info.op, [origOpIndex, count])]) := by
  obtain ⟨before, original, original_stands, isOriginal, same⟩ := findOrigOp_spec found
  have data := chains.kind original (mem_of_getElem? original_stands) info
    (mem_of_getElem? stands) same
  have original_entry : isEntryOf info.op original = true :=
    isEntryOf_iff.mpr ⟨data.trans (isEntryOf_iff.mp entry).1, same⟩
  -- The entries before are no spills, and there is only one `ORIGINAL`.
  have only : (dataPlaces scheduledOps info.op).filter (· < count) = [origOpIndex] := by
    refine List.Pairwise.eq_of_mem_iff ((dataPlaces_pairwise _ _).filter _)
      (pairwise_singleton (· < ·) _) fun place => ?_
    rw [mem_filter, decide_eq_true_eq, mem_singleton]
    constructor
    · rintro ⟨mem, below⟩
      obtain ⟨other, other_stands, other_entry⟩ := mem_dataPlaces.mp mem
      have other_op := isEntryOf_iff.mp other_entry
      have notSpill : ¬ isSpill other = true := by
        intro spill
        obtain ⟨dataOp, inside, key⟩ := built.complete place other below other_stands spill
          other_op.1 (other_op.2 ▸ single)
        exact absent dataOp inside (key.trans other_op.2)
      rcases lt_trichotomy place origOpIndex with earlier | equal | later
      · have spill := isSpill_of_later (chains.chain info.op) other_stands other_entry
          original_stands original_entry earlier
        rw [isOriginalOp_of_isSpill spill] at isOriginal
        exact absurd isOriginal (by simp)
      · exact equal
      · exact absurd (isSpill_of_later (chains.chain info.op) original_stands original_entry
          other_stands other_entry later) notSpill
    · rintro rfl
      exact ⟨mem_dataPlaces.mpr ⟨original, original_stands, original_entry⟩, before⟩
  refine ⟨?_, fun dataOp inside => ?_, fun dataOp inside => ?_, ?_⟩
  · rw [map_append, nodup_append]
    refine ⟨built.keys, nodup_singleton _, fun key mem other inside => ?_⟩
    obtain ⟨dataOp, inside_tree, rfl⟩ := mem_map.mp mem
    rw [mem_singleton.mp inside]
    exact absent dataOp inside_tree
  · rcases mem_append.mp inside with mem | new
    · obtain ⟨single, places⟩ := built.places dataOp mem
      refine ⟨single, ?_⟩
      rw [filter_lt_succ _ (dataPlaces_pairwise _ _), if_neg (others _ (absent dataOp mem)),
        append_nil, places]
    · rw [mem_singleton.mp new]
      refine ⟨single, ?_⟩
      rw [filter_lt_succ _ (dataPlaces_pairwise _ _), if_pos listed, only]
      rfl
  · rcases mem_append.mp inside with mem | new
    · obtain ⟨place, earlier, below, rest⟩ := built.spilled dataOp mem
      exact ⟨place, earlier, lt_succ_of_lt below, rest⟩
    · rw [mem_singleton.mp new]
      exact ⟨count, info, lt_succ_self count, stands, entry⟩
  · exact built.complete_succ stands
      (fun dataOp mem => ⟨dataOp, mem_append_left _ mem, rfl⟩)
      ⟨_, mem_append_right _ (mem_singleton_self _), rfl⟩

end Spill

theorem TreeBuilt.insertSpill {count : Nat} {after : SpillTree}
    (chains : DataChains scheduledOps) (built : TreeBuilt context scheduledOps count tree)
    (run : insertSpill context scheduledOps tree count = some after) :
    TreeBuilt context scheduledOps (count + 1) after := by
  obtain ⟨info, stands, run⟩ := Option.bind_eq_some_iff.mp run
  split at run
  · rename_i kind
    obtain ⟨-, data⟩ := and_eq_true_iff.mp kind
    obtain ⟨execOp, exec, run⟩ := Option.bind_eq_some_iff.mp run
    have counted : (context.execOps.map ExecuteOp.resultCount)[info.op]? =
        some execOp.resultCount := by
      rw [getElem?_map, exec]
      rfl
    split at run
    · rename_i several
      obtain rfl := Option.some.inj run
      refine built.skip chains stands fun _ _ ⟨count, found, bound⟩ => ?_
      rw [counted] at found
      exact absurd (Option.some.inj found ▸ bound) (Nat.not_le_of_lt several)
    · rename_i few
      have single : HasSingleResult context info.op := ⟨_, counted, not_lt.mp few⟩
      have entry : isEntryOf info.op info = true := by simp [isEntryOf, data]
      have listed : count ∈ dataPlaces scheduledOps info.op :=
        mem_dataPlaces.mpr ⟨info, stands, entry⟩
      -- An entry of another operation does not stand here.
      have others : ∀ op, op ≠ info.op → count ∉ dataPlaces scheduledOps op :=
        fun op differs mem => differs (op_eq_of_mem_dataPlaces mem listed)
      split at run
      · rename_i present
        obtain rfl := Option.some.inj run
        exact built.append stands listed others (by simpa using present)
      · rename_i absent
        obtain ⟨origOpIndex, found, rfl⟩ := Option.map_eq_some_iff.mp run
        exact built.cons chains stands entry single listed others (fun dataOp mem same =>
          absent (any_eq_true.mpr ⟨dataOp, mem, decide_eq_true same⟩)) found
  · rename_i kind
    obtain rfl := Option.some.inj run
    exact built.skip chains stands fun spill data _ =>
      kind (by rw [and_eq_true]; exact ⟨spill, data⟩)

theorem spillTree_spec (chains : DataChains scheduledOps)
    (run : (List.range scheduledOps.length).foldlM (insertSpill context scheduledOps) [] =
      some tree) :
    (tree.map Prod.fst).Nodup ∧ ∀ dataOp ∈ tree, HasSingleResult context dataOp.1 ∧
      dataOp.2 = dataPlaces scheduledOps dataOp.1 := by
  have built : TreeBuilt context scheduledOps scheduledOps.length tree := by
    refine Attempt.foldlM_range (TreeBuilt context scheduledOps)
      (fun count _ before after built run => built.insertSpill chains run) ?_ run
    exact ⟨nodup_nil, by simp, by simp, by simp⟩
  refine ⟨built.keys, fun dataOp mem => ?_⟩
  obtain ⟨single, places⟩ := built.places dataOp mem
  refine ⟨single, places.trans (filter_eq_self.mpr fun place listed => ?_)⟩
  obtain ⟨info, stands, -⟩ := mem_dataPlaces.mp listed
  exact decide_eq_true (List.getElem?_eq_some_iff.mp stands).1

/-! ### All operations of the tree -/

/-- What holds when some operations of the tree are optimised. -/
structure TreeOptimized (context : Context) (scheduledOps : List ScheduledOpInfo) (done : SpillTree)
    (state : List ScheduledOpInfo × List Nat) : Prop where
  promoted : List.Forall₂ Promoted scheduledOps state.1
  nodup : state.2.Nodup
  removed : ∀ place ∈ state.2, ∃ dataOp ∈ done, place ∈ dataOp.2 ∧
    ∃ front idx next rest, dataOp.2 = front ++ idx :: next :: rest ∧
      (place = idx ∨ place = next) ∧ idx ∈ state.2 ∧ next ∈ state.2 ∧ idx < next ∧
      (∃ info, scheduledOps[next]? = some info ∧ info.isSpillWrite = true) ∧
      Unused context scheduledOps idx next
  chains : ∀ dataOp ∈ done, ∃ left, StandAt state.1 (dataOp.2.filter (· ∉ state.2)) left ∧
    IsDataChain left
  untouched : ∀ place, (∀ dataOp ∈ done, place ∉ dataOp.2) →
    state.1[place]? = scheduledOps[place]?

theorem TreeOptimized.step {done : SpillTree} {state after : List ScheduledOpInfo × List Nat}
    {dataOp : Nat × List Nat} (optimized : TreeOptimized context scheduledOps done state)
    (apart : ∀ other ∈ done, ∀ place ∈ other.2, place ∉ dataOp.2) (distinct : dataOp.2.Nodup)
    (stands : StandAt scheduledOps dataOp.2 chain) (data : ∀ info ∈ chain, info.isDataOp = true)
    (isChain : IsDataChain chain)
    (run : optimizeDataOp context dataOp.2 state.1 state.2 = some after) :
    TreeOptimized context scheduledOps (done ++ [dataOp]) after := by
  have current : StandAt state.1 dataOp.2 chain := stands.congr fun place mem =>
    optimized.untouched place fun other inside listed => apart other inside place listed mem
  obtain ⟨promoted, unchanged, newly, appended, removes, left, left_stands, left_chain⟩ :=
    optimizeDataOp_chain dataOp.2 chain distinct current data isChain run
  have old_apart : ∀ place ∈ state.2, place ∉ dataOp.2 := by
    intro place mem
    obtain ⟨other, inside, listed, -⟩ := optimized.removed place mem
    exact apart other inside place listed
  refine ⟨promoted_trans optimized.promoted promoted, ?_, ?_, ?_, ?_⟩
  · rw [appended, nodup_append]
    refine ⟨optimized.nodup, removes.nodup, fun place mem other inside same => ?_⟩
    exact old_apart place mem (same ▸ removes.subset other inside)
  · intro place mem
    rw [appended] at mem ⊢
    rcases mem_append.mp mem with old | new
    · obtain
        ⟨other, inside, listed, front, idx, next, rest, split, which, first, second, facts⟩ :=
        optimized.removed place old
      exact ⟨other, mem_append_left _ inside, listed, front, idx, next, rest, split, which,
        mem_append_left _ first, mem_append_left _ second, facts⟩
    · obtain ⟨front, idx, next, rest, split, which, first, second, before,
        ⟨entry, found, isWrite⟩, unused⟩ := removes.pairs place new
      obtain ⟨info, info_stands, same⟩ := Alongside.getElem?_left optimized.promoted _ found
      exact ⟨dataOp, mem_append_right _ (mem_singleton_self _),
        removes.subset place new, front, idx, next, rest, split, which,
        mem_append_right _ first, mem_append_right _ second, before,
        ⟨info, info_stands, by rw [← same.isSpillWrite]; exact isWrite⟩,
        unused.of_promoted optimized.promoted⟩
  · intro other mem
    rw [appended]
    rcases mem_append.mp mem with old | new
    · obtain ⟨chain, chain_stands, chain_kind⟩ := optimized.chains other old
      refine ⟨chain, ?_, chain_kind⟩
      have same : other.2.filter (· ∉ state.2 ++ newly) = other.2.filter (· ∉ state.2) := by
        refine filter_congr fun place listed => ?_
        have free : place ∉ newly := fun inside =>
          apart other old place listed (removes.subset place inside)
        simp [free]
      rw [same]
      exact chain_stands.congr fun place kept =>
        unchanged place (apart other old place (mem_of_mem_filter kept))
    · rw [mem_singleton.mp new]
      refine ⟨left, ?_, left_chain⟩
      have same : dataOp.2.filter (· ∉ state.2 ++ newly) = dataOp.2.filter (· ∉ newly) := by
        refine filter_congr fun place listed => ?_
        have free : place ∉ state.2 := fun inside => old_apart place inside listed
        simp [free]
      rw [same]
      exact left_stands
  · intro place away
    rw [unchanged place (away dataOp (mem_append_right _ (mem_singleton_self _)))]
    exact optimized.untouched place (forall_mem_append.mp away).1

theorem StandAt.unique {places : List Nat} {other : List ScheduledOpInfo}
    (stands : StandAt scheduledOps places chain) (again : StandAt scheduledOps places other) :
    chain = other := by
  induction stands generalizing other with
  | nil => exact (forall₂_nil_left_iff.mp again).symm
  | cons here _ ih =>
    cases again with
    | cons here_again again =>
      rw [here] at here_again
      rw [Option.some.inj here_again, ih again]

theorem standAt_deleteAt (removed : List Nat) (scheduledOps : List ScheduledOpInfo) (op : Nat) :
    StandAt scheduledOps ((dataPlaces scheduledOps op).filter (· ∉ removed))
      ((deleteAt removed scheduledOps).filter (isEntryOf op)) := by
  have places : (dataPlaces scheduledOps op).filter (· ∉ removed) =
      (scheduledOps.zipIdx.filter fun entry =>
        entry.2 ∉ removed && isEntryOf op entry.1).map Prod.snd := by
    rw [dataPlaces, filter_map, filter_filter]
    rfl
  have entries : (deleteAt removed scheduledOps).filter (isEntryOf op) =
      (scheduledOps.zipIdx.filter fun entry =>
        entry.2 ∉ removed && isEntryOf op entry.1).map Prod.fst := by
    rw [deleteAt, filter_map, filter_filter]
    refine congrArg _ (filter_congr fun entry _ => ?_)
    exact and_comm _ _
  rw [places, entries, StandAt, forall₂_map_left_iff, forall₂_map_right_iff, forall₂_same]
  intro entry mem
  exact mk_mem_zipIdx_iff_getElem?.mp (mem_of_mem_filter mem)

theorem dataPlaces_promoted {after : List ScheduledOpInfo}
    (promoted : List.Forall₂ Promoted scheduledOps after) (op : Nat) :
    dataPlaces after op = dataPlaces scheduledOps op := by
  have entry_eq : ∀ {info entry : ScheduledOpInfo}, Promoted info entry →
      isEntryOf op entry = isEntryOf op info := by
    intro info entry same
    simp only [isEntryOf, same.isDataOp, same.op]
  refine List.Pairwise.eq_of_mem_iff (dataPlaces_pairwise _ _) (dataPlaces_pairwise _ _)
    fun place => ?_
  rw [mem_dataPlaces, mem_dataPlaces]
  constructor
  · rintro ⟨entry, stands, isEntry⟩
    obtain ⟨info, found, same⟩ := Alongside.getElem?_left promoted _ stands
    exact ⟨info, found, (entry_eq same).symm.trans isEntry⟩
  · rintro ⟨info, stands, isEntry⟩
    obtain ⟨entry, found, same⟩ := Alongside.getElem?_right promoted _ stands
    exact ⟨entry, found, (entry_eq same).trans isEntry⟩

/-- A pair of entries of a data operation that the optimisation removes. -/
structure RemovedPair (context : Context) (scheduledOps : List ScheduledOpInfo)
    (removed : List Nat) (op idx next : Nat) : Prop where
  single : HasSingleResult context op
  consecutive : ∃ front rest, dataPlaces scheduledOps op = front ++ idx :: next :: rest
  index_removed : idx ∈ removed
  next_removed : next ∈ removed
  before : idx < next
  write : ∃ info, scheduledOps[next]? = some info ∧ info.isSpillWrite = true
  unused : Unused context scheduledOps idx next

/-- No entry of the operation stands between those of a pair. -/
theorem RemovedPair.next_le {removed : List Nat} {idx next : Nat}
    (pair : RemovedPair context scheduledOps removed op idx next)
    (listed : place ∈ dataPlaces scheduledOps op) (above : idx < place) : next ≤ place := by
  obtain ⟨front, rest, consecutive⟩ := pair.consecutive
  have ascending := dataPlaces_pairwise scheduledOps op
  rw [consecutive] at ascending listed
  obtain ⟨-, ascending, across⟩ := pairwise_append.mp ascending
  obtain ⟨-, ascending⟩ := pairwise_cons.mp ascending
  rcases mem_append.mp listed with inside | inside
  · exact absurd (across place inside idx mem_cons_self) (lt_asymm above)
  · rcases mem_cons.mp inside with rfl | inside
    · exact absurd above (lt_irrefl _)
    · rcases mem_cons.mp inside with rfl | inside
      · exact le_refl _
      · exact ((pairwise_cons.mp ascending).1 place inside).le

section Tree

variable {tree done rest : SpillTree} {dataOp : Nat × List Nat}
  {state after : List ScheduledOpInfo × List Nat}
  (chains : DataChains scheduledOps) (keys : (tree.map Prod.fst).Nodup)
  (places : ∀ dataOp ∈ tree, HasSingleResult context dataOp.1 ∧
    dataOp.2 = dataPlaces scheduledOps dataOp.1)

include chains keys places

theorem TreeOptimized.next (optimized : TreeOptimized context scheduledOps done state)
    (split : tree = done ++ dataOp :: rest)
    (run : optimizeDataOp context dataOp.2 state.1 state.2 = some after) :
    TreeOptimized context scheduledOps (done ++ [dataOp]) after := by
  have mem : dataOp ∈ tree := by rw [split]; simp
  have own := (places dataOp mem).2
  refine optimized.step (fun other inside place listed listed' => ?_) ?_ ?_
    (fun info inside => ?_) (chains.chain dataOp.1) run
  · have other_member : other ∈ tree := by rw [split]; simp [inside]
    rw [(places other other_member).2] at listed
    rw [own] at listed'
    rw [split, map_append, map_cons, nodup_append] at keys
    exact keys.2.2 other.1 (mem_map_of_mem inside) dataOp.1 mem_cons_self
      (op_eq_of_mem_dataPlaces listed listed')
  · rw [own]
    exact (dataPlaces_pairwise scheduledOps dataOp.1).imp fun below => below.ne
  · rw [own]
    exact standAt_dataPlaces scheduledOps dataOp.1
  · exact (and_eq_true_iff.mp (mem_filter.mp inside).2).1

omit chains keys in
theorem TreeOptimized.erase (optimized : TreeOptimized context scheduledOps tree state) :
    eraseEach (state.2.mergeSort (· ≤ ·)).reverse state.1 = some (deleteAt state.2 state.1) := by
  have sorted_perm := mergeSort_perm state.2 (· ≤ ·)
  have bounds : ∀ place ∈ (state.2.mergeSort (· ≤ ·)).reverse, place < state.1.length := by
    intro place mem
    obtain ⟨dataOp, inside, listed, -⟩ :=
      optimized.removed place (sorted_perm.mem_iff.mp (mem_reverse.mp mem))
    rw [(places dataOp inside).2] at listed
    obtain ⟨info, stands, -⟩ := mem_dataPlaces.mp listed
    rw [← optimized.promoted.length_eq]
    exact (List.getElem?_eq_some_iff.mp stands).1
  have descending : (state.2.mergeSort (· ≤ ·)).reverse.Pairwise (· > ·) := by
    rw [pairwise_reverse]
    have sorted := pairwise_mergeSort' (· ≤ ·) state.2
    have different : (state.2.mergeSort (· ≤ ·)).Nodup := sorted_perm.nodup_iff.mpr optimized.nodup
    exact (sorted.and different).imp fun both => lt_of_le_of_ne both.1 both.2
  rw [eraseEach_eq_deleteAt bounds descending]
  simp only [deleteAt, mem_reverse, sorted_perm.mem_iff]

omit keys in
theorem TreeOptimized.isDataChain (optimized : TreeOptimized context scheduledOps tree state)
    (op : Nat) : IsDataChain ((deleteAt state.2 state.1).filter (isEntryOf op)) := by
  have kept := standAt_deleteAt state.2 state.1 op
  rw [dataPlaces_promoted optimized.promoted] at kept
  by_cases inside : ∃ dataOp ∈ tree, dataOp.1 = op
  · obtain ⟨dataOp, mem, rfl⟩ := inside
    obtain ⟨left, stands, isChain⟩ := optimized.chains dataOp mem
    rw [(places dataOp mem).2] at stands
    exact kept.unique stands ▸ isChain
  · -- The entries of an operation outside of the tree are not touched.
    have outside : ∀ place ∈ dataPlaces scheduledOps op, ∀ dataOp ∈ tree, place ∉ dataOp.2 := by
      intro place listed dataOp mem listed'
      rw [(places dataOp mem).2] at listed'
      exact inside ⟨dataOp, mem, op_eq_of_mem_dataPlaces listed' listed⟩
    have all_kept : (dataPlaces scheduledOps op).filter (· ∉ state.2) =
        dataPlaces scheduledOps op := by
      refine filter_eq_self.mpr fun place listed => decide_eq_true fun removed => ?_
      obtain ⟨dataOp, mem, listed', -⟩ := optimized.removed place removed
      exact outside place listed dataOp mem listed'
    rw [all_kept] at kept
    have stands : StandAt state.1 (dataPlaces scheduledOps op)
        (scheduledOps.filter (isEntryOf op)) :=
      (standAt_dataPlaces scheduledOps op).congr fun place listed =>
        optimized.untouched place (outside place listed)
    exact kept.unique stands ▸ chains.chain op

end Tree

theorem treeOptimized_nil (context : Context) (scheduledOps : List ScheduledOpInfo) :
    TreeOptimized context scheduledOps [] (scheduledOps, []) :=
  ⟨promoted_refl _, nodup_nil, by simp, by simp, fun _ _ => rfl⟩

variable {hashOrder : SpillTree → SpillTree}

theorem hashOrder_spec (order : ∀ tree, (hashOrder tree).Perm tree)
    (chains : DataChains scheduledOps)
    (run : (List.range scheduledOps.length).foldlM (insertSpill context scheduledOps) [] =
      some tree) :
    ((hashOrder tree).map Prod.fst).Nodup ∧ ∀ dataOp ∈ hashOrder tree,
      HasSingleResult context dataOp.1 ∧ dataOp.2 = dataPlaces scheduledOps dataOp.1 := by
  obtain ⟨keys, places⟩ := spillTree_spec chains run
  exact ⟨((order tree).map Prod.fst).nodup_iff.mpr keys,
    fun dataOp mem => places dataOp ((order tree).mem_iff.mp mem)⟩

/-- What the optimisation leaves: the schedule without some pairs, with spill reads promoted, where
the entries of a data operation still are an `ORIGINAL`, then spill writes and spill reads. -/
theorem optimizeDataOpsSpills_spec {mid : List ScheduledOpInfo}
    (order : ∀ tree, (hashOrder tree).Perm tree) (chains : DataChains scheduledOps)
    (run : optimizeDataOpsSpills context hashOrder scheduledOps = some mid) :
    ∃ promotedOps removed, mid = deleteAt removed promotedOps ∧
      List.Forall₂ Promoted scheduledOps promotedOps ∧
      (∀ place ∈ removed, ∃ op idx next, (place = idx ∨ place = next) ∧
        RemovedPair context scheduledOps removed op idx next) ∧
      ∀ op, IsDataChain (mid.filter (isEntryOf op)) := by
  obtain ⟨tree, built, run⟩ := Option.bind_eq_some_iff.mp run
  obtain ⟨state, folded, erased⟩ := Option.bind_eq_some_iff.mp run
  obtain ⟨keys, places⟩ := hashOrder_spec order chains built
  have optimized : TreeOptimized context scheduledOps (hashOrder tree) state :=
    Attempt.foldlM_done (TreeOptimized context scheduledOps)
      (fun done dataOp rest split before after optimized step =>
        optimized.next chains keys places split step) (treeOptimized_nil _ _) folded
  rw [optimized.erase places] at erased
  obtain rfl := Option.some.inj erased
  refine ⟨state.1, state.2, rfl, optimized.promoted, fun place mem => ?_,
    optimized.isDataChain chains places⟩
  obtain ⟨dataOp, inside, -, front, idx, next, rest, split, which, first, second, before, write,
    unused⟩ := optimized.removed place mem
  obtain ⟨single, own⟩ := places dataOp inside
  exact ⟨dataOp.1, idx, next, which, single, ⟨front, rest, own ▸ split⟩, first, second, before,
    write, unused⟩

/-! ### Spills that are optimised without an error -/

open Option

/-- The operation exists, and its operands and results in the memory have single roots. -/
def HasSingleRoots (context : Context) (op : Nat) : Prop :=
  ∃ execOp, context.execOps[op]? = some execOp ∧
    (∀ operand ∈ execOp.operands, context.types operand = .asyncValue (some context.memKind) →
      ∃ root, context.aliasInfo.getSingleRoot operand = some root) ∧
    ∀ res ∈ execOp.getBodyResults op,
      (context.types res).bufferMemoryKind = some context.memKind →
        ∃ root, context.aliasInfo.getSingleRoot res = some root

variable {op place : Nat} {info : ScheduledOpInfo} (buffer : Buffer)

theorem findBufferUses_exists (buffer : Buffer) {infos : List ScheduledOpInfo}
    (rooted : ∀ info ∈ infos, HasSingleRoots context info.op) (used : Bool × Bool) :
    ∃ found, findBufferUses context buffer infos used = some found := by
  induction infos generalizing used with
  | nil => exact ⟨used, rfl⟩
  | cons info infos ih =>
    obtain ⟨⟨execOp, exec, operands, results⟩, others⟩ := forall_mem_cons.mp rooted
    obtain ⟨asArgument, argument⟩ := findRootedAt_exists operands
    obtain ⟨asResult, result⟩ := findRootedAt_exists results
    rw [findBufferUses, exec, bind_some, isUsedAsArgument_eq, argument, bind_some,
      isUsedAsResult_eq, result, bind_some]
    dsimp only
    split
    · exact ⟨_, rfl⟩
    · exact ih others _

/-- The iterations over ascending places of entries of a data operation end. -/
theorem optimizeDataOp_exists (places : List Nat) (scheduledOps : List ScheduledOpInfo)
    (removed : List Nat) (ascending : places.Pairwise (· < ·))
    (exist : ∀ place ∈ places, ∃ info, scheduledOps[place]? = some info ∧ info.isDataOp = true ∧
      (info.isSpillWrite = false → info.outputResourceInfo ≠ []))
    (rooted : ∀ info ∈ scheduledOps, HasSingleRoots context info.op) :
    ∃ result, optimizeDataOp context places scheduledOps removed = some result := by
  induction places generalizing scheduledOps removed with
  | nil => exact ⟨_, rfl⟩
  | cons idx places ih =>
    cases places with
    | nil => exact ⟨_, rfl⟩
    | cons next rest =>
      obtain ⟨⟨info, stands, -, outputs⟩, exist⟩ := forall_mem_cons.mp exist
      obtain ⟨⟨nextInfo, next_stands, -⟩, exist_rest⟩ := forall_mem_cons.mp exist
      obtain ⟨above, ascending⟩ := pairwise_cons.mp ascending
      rw [optimizeDataOp, stands, next_stands, bind_some, bind_some]
      split
      · exact ih scheduledOps removed ascending exist rooted
      · rename_i kind
        simp only [Bool.or_eq_true] at kind
        replace kind := not_or.mp kind
        rw [if_neg (not_not.mpr (above next mem_cons_self))]
        obtain ⟨resource, output⟩ : ∃ resource, info.outputResourceInfo.head? = some resource := by
          cases resources : info.outputResourceInfo with
          | nil => exact absurd resources (outputs (eq_false_of_not_eq_true kind.1))
          | cons resource _ => exact ⟨resource, rfl⟩
        obtain ⟨used, uses⟩ := @findBufferUses_exists context resource.buffer
          ((scheduledOps.take next).drop (idx + 1)) (fun other mem =>
            rooted other (mem_of_mem_take (mem_of_mem_drop mem))) (false, false)
        rw [output, bind_some, uses, bind_some]
        split
        · exact ih scheduledOps removed ascending exist rooted
        · split
          · rename_i isOriginal
            have promoted := promoteNextSpillRead_promoted
              (fun place mem => (exist_rest place mem).imp fun _ facts =>
                ⟨facts.1, facts.2.1⟩) (isOriginalOp_of_opType isOriginal)
            refine ih _ _ ascending (fun place mem => ?_) fun other mem => ?_
            · obtain ⟨other, found, data_other, outputs_other⟩ := exist place mem
              obtain ⟨entry, entry_stands, same⟩ := Alongside.getElem?_right promoted _ found
              refine ⟨entry, entry_stands, same.isDataOp.trans data_other, fun notWrite => ?_⟩
              rw [same.outputResourceInfo]
              exact outputs_other (same.isSpillWrite.symm.trans notWrite)
            · obtain ⟨place, found⟩ := mem_iff_getElem?.mp mem
              obtain ⟨entry, entry_stands, same⟩ := Alongside.getElem?_left promoted _ found
              rw [same.op]
              exact rooted entry (mem_of_getElem? entry_stands)
          · exact ih scheduledOps _ ascending exist rooted

theorem findOrigOp_exists (stands : scheduledOps[place]? = some info)
    (isOriginal : info.isOriginalOp = true) (same : info.op = op) (before : place < i) :
    ∃ origOpIndex, findOrigOp scheduledOps op i = some origOpIndex := by
  induction i with
  | zero => exact absurd before (Nat.not_lt_zero _)
  | succ i ih =>
    rw [findOrigOp]
    split
    · exact ⟨i, rfl⟩
    · rename_i other
      refine ih (lt_of_le_of_ne (Nat.le_of_lt_succ before) ?_)
      rintro rfl
      rw [stands, any_some, isOriginal, same] at other
      exact other (by simp)

theorem exists_original (isChain : IsDataChain (scheduledOps.filter (isEntryOf op)))
    (stands : scheduledOps[place]? = some info) (entry : isEntryOf op info = true)
    (spill : isSpill info = true) : ∃ first original, first < place ∧
      scheduledOps[first]? = some original ∧ original.isOriginalOp = true ∧
      isEntryOf op original = true := by
  have listed : place ∈ dataPlaces scheduledOps op := mem_dataPlaces.mpr ⟨info, stands, entry⟩
  have ascending := dataPlaces_pairwise scheduledOps op
  have standAt := standAt_dataPlaces scheduledOps op
  cases places : dataPlaces scheduledOps op with
  | nil => exact absurd (places ▸ listed) not_mem_nil
  | cons first rest =>
    rw [places] at listed ascending standAt
    cases chain : scheduledOps.filter (isEntryOf op) with
    | nil => exact absurd standAt.length_eq (by simp [chain])
    | cons original chain_rest =>
      rw [chain] at isChain standAt
      have isOriginal : original.isOriginalOp = true := by
        cases chain_rest with
        | nil => exact isChain
        | cons _ _ => exact isChain.1
      have first_stands := (forall₂_cons.mp standAt).1
      have original_entry := (List.mem_filter.mp (by rw [chain]; exact mem_cons_self :
        original ∈ scheduledOps.filter (isEntryOf op))).2
      refine ⟨first, original, ?_, first_stands, isOriginal, original_entry⟩
      rcases mem_cons.mp listed with rfl | inside
      · rw [stands] at first_stands
        rw [← Option.some.inj first_stands, isOriginalOp_of_isSpill spill] at isOriginal
        exact absurd isOriginal (by simp)
      · exact (pairwise_cons.mp ascending).1 place inside

theorem spillTree_exists (chains : DataChains scheduledOps)
    (rooted : ∀ info ∈ scheduledOps, HasSingleRoots context info.op) :
    ∃ tree, (List.range scheduledOps.length).foldlM (insertSpill context scheduledOps) [] =
      some tree := by
  refine (Attempt.exists_foldlM_range (fun _ _ => True) scheduledOps.length
    (fun count below tree _ => ?_) trivial).imp fun _ => And.left
  have stands := getElem?_eq_getElem below
  obtain ⟨execOp, exec, -⟩ := rooted _ (getElem_mem below)
  rw [insertSpill, stands, bind_some]
  split
  · rename_i kind
    obtain ⟨spill, data⟩ := Bool.and_eq_true_iff.mp kind
    rw [exec, bind_some]
    split
    · exact ⟨tree, rfl, trivial⟩
    · split
      · exact ⟨_, rfl, trivial⟩
      · obtain ⟨first, original, before, original_stands, isOriginal, entry⟩ :=
          exists_original (chains.chain scheduledOps[count].op) stands (by simp [isEntryOf, data])
            spill
        obtain ⟨origOpIndex, found⟩ :=
          findOrigOp_exists original_stands isOriginal (isEntryOf_iff.mp entry).2 before
        rw [found]
        exact ⟨_, rfl, trivial⟩
  · exact ⟨tree, rfl, trivial⟩

theorem optimizeDataOpsSpills_exists {hashOrder : SpillTree → SpillTree}
    (order : ∀ tree, (hashOrder tree).Perm tree) (chains : DataChains scheduledOps)
    (outputs : ∀ info ∈ scheduledOps, info.isDataOp = true → HasSingleResult context info.op →
      info.isSpillWrite = false → info.outputResourceInfo ≠ [])
    (rooted : ∀ info ∈ scheduledOps, HasSingleRoots context info.op) :
    ∃ mid, optimizeDataOpsSpills context hashOrder scheduledOps = some mid := by
  obtain ⟨tree, built⟩ := spillTree_exists chains rooted
  obtain ⟨keys, places⟩ := hashOrder_spec order chains built
  obtain ⟨state, folded, optimized⟩ : ∃ state, (hashOrder tree).foldlM (fun state dataOp =>
      optimizeDataOp context dataOp.2 state.1 state.2) (scheduledOps, []) = some state ∧
        TreeOptimized context scheduledOps (hashOrder tree) state := by
    refine Attempt.exists_foldlM (TreeOptimized context scheduledOps)
      (fun done dataOp rest split state optimized => ?_) (treeOptimized_nil _ _)
    have mem : dataOp ∈ hashOrder tree := by rw [split]; simp
    obtain ⟨single, own⟩ := places dataOp mem
    obtain ⟨result, run⟩ := optimizeDataOp_exists dataOp.2 state.1 state.2
      (own ▸ dataPlaces_pairwise scheduledOps dataOp.1) (fun place listed => by
        obtain ⟨info, found, entry⟩ := mem_dataPlaces.mp (own ▸ listed)
        replace entry := isEntryOf_iff.mp entry
        obtain ⟨entry_after, stands, same⟩ := Alongside.getElem?_right optimized.promoted _ found
        refine ⟨entry_after, stands, same.isDataOp.trans entry.1, fun notWrite => ?_⟩
        rw [same.outputResourceInfo]
        exact outputs info (mem_of_getElem? found) entry.1 (entry.2.symm ▸ single)
          (same.isSpillWrite.symm.trans notWrite)) (fun info mem => by
        obtain ⟨place, found⟩ := mem_iff_getElem?.mp mem
        obtain ⟨entry, entry_stands, same⟩ := Alongside.getElem?_left optimized.promoted _ found
        rw [same.op]
        exact rooted entry (mem_of_getElem? entry_stands))
    exact ⟨result, run, optimized.next chains keys places split run⟩
  refine ⟨deleteAt state.2 state.1, ?_⟩
  rw [optimizeDataOpsSpills, built, bind_some, folded, bind_some, optimized.erase places]

end NpuPlugin.FeasibleMemorySchedulerSpilling
