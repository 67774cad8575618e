/-
This file develops the topological order that is found from a root: a node is visited when all nodes
that depend on it have been visited, which a count of those nodes tells. At its end are the orders
in which every element comes after those it depends on.
-/

import Mathlib.Data.List.Nodup
import Mathlib.Data.List.Perm.Subperm
import Mathlib.Order.WellFounded

namespace NpuPlugin.TopologicalOrder

open List Function

variable {Node : Type} [DecidableEq Node]

/-- The nodes that were visited, those to visit, and how many nodes are left that depend on one. -/
structure Visit (Node : Type) where
  order : List Node
  toVisit : List Node
  inDegree : Node → Int

/-- A node that one node less depends on is to be visited when it was the last one. -/
def countDown (state : Visit Node) (dep : Node) : Visit Node :=
  { state with
    inDegree := Function.update state.inDegree dep (state.inDegree dep - 1)
    toVisit := if state.inDegree dep - 1 = 0 then state.toVisit ++ [dep] else state.toVisit }

/-- The loop over the nodes to visit, for a number of turns. -/
def visit (deps : Node → List Node) : Nat → Visit Node → Option (List Node)
  | 0, state => if state.toVisit = [] then some state.order else none
  | turns + 1, state =>
    match state.toVisit with
    | [] => some state.order
    | current :: rest =>
      visit deps turns <| (deps current).foldl countDown
        { state with order := state.order ++ [current], toVisit := rest }

theorem foldl_countDown (deps : List Node) (nodup : deps.Nodup) (state : Visit Node) :
    deps.foldl countDown state =
      { state with
        inDegree := fun node => if node ∈ deps then state.inDegree node - 1
          else state.inDegree node
        toVisit := state.toVisit ++ deps.filter fun dep => state.inDegree dep - 1 = 0 } := by
  induction deps generalizing state with
  | nil => simp
  | cons dep rest ih =>
    obtain ⟨apart, nodupRest⟩ := nodup_cons.mp nodup
    have filtered : rest.filter (fun other =>
        decide (update state.inDegree dep (state.inDegree dep - 1) other - 1 = 0)) =
        rest.filter fun other => decide (state.inDegree other - 1 = 0) :=
      filter_congr fun other mem => by rw [update_of_ne (ne_of_mem_of_not_mem mem apart)]
    rw [foldl_cons, ih nodupRest]
    unfold countDown
    simp only [filtered, Visit.mk.injEq, true_and]
    constructor
    · split
      · rename_i last
        rw [filter_cons, if_pos (decide_eq_true last), append_assoc, singleton_append]
      · rename_i more
        rw [filter_cons, if_neg fun last => more (of_decide_eq_true last)]
    · funext node
      by_cases first : node = dep
      · rw [first, if_neg apart, if_pos mem_cons_self, update_self]
      · rw [update_of_ne first]
        simp only [mem_cons, first, false_or]

/-- The nodes that depend on a node and are not visited. -/
def dependents (deps : Node → List Node) (nodes order : List Node) (dep : Node) : List Node :=
  nodes.filter fun node => dep ∈ deps node ∧ node ∉ order

/-- A graph of nodes with a root that nothing depends on. -/
structure Rooted (deps : Node → List Node) (nodes : List Node) (root : Node) : Prop where
  nodup : nodes.Nodup
  root_mem : root ∈ nodes
  deps_mem : ∀ node ∈ nodes, ∀ dep ∈ deps node, dep ∈ nodes
  deps_nodup : ∀ node ∈ nodes, (deps node).Nodup
  root_free : ∀ node ∈ nodes, root ∉ deps node
  others : ∀ node ∈ nodes, node = root ∨ ∃ dependent ∈ nodes, node ∈ deps dependent
  wellFounded : WellFounded fun dependent dep => dep ∈ deps dependent

/-- What holds of the visited nodes and of those to visit. -/
structure Visited (deps : Node → List Node) (nodes : List Node) (root : Node)
    (state : Visit Node) : Prop where
  nodup : (state.order ++ state.toVisit).Nodup
  nodes_of_mem : ∀ node ∈ state.order ++ state.toVisit, node ∈ nodes
  counts : ∀ dep, state.inDegree dep = (dependents deps nodes state.order dep).length
  seen_iff : ∀ dep ∈ nodes, dep ∈ state.order ++ state.toVisit ↔ dep = root ∨
    (∃ node ∈ nodes, dep ∈ deps node) ∧ ∀ node ∈ nodes, dep ∈ deps node → node ∈ state.order
  ordered : state.order.Pairwise fun first second => first ∉ deps second
  first : (state.order ++ state.toVisit).head? = some root

variable {deps : Node → List Node} {nodes : List Node} {root : Node} {state : Visit Node}

theorem dependents_append {order : List Node} {current dep : Node} (nodup : nodes.Nodup)
    (mem : current ∈ nodes) (fresh : current ∉ order) :
    ((dependents deps nodes (order ++ [current]) dep).length : Int) =
      if dep ∈ deps current then ((dependents deps nodes order dep).length : Int) - 1
      else (dependents deps nodes order dep).length := by
  split
  · rename_i dependent
    have found : current ∈ dependents deps nodes order dep :=
      mem_filter.mpr ⟨mem, decide_eq_true ⟨dependent, fresh⟩⟩
    have erased : dependents deps nodes (order ++ [current]) dep =
        (dependents deps nodes order dep).erase current := by
      have distinct : (dependents deps nodes order dep).Nodup := nodup.filter _
      rw [distinct.erase_eq_filter]
      unfold dependents
      rw [filter_filter]
      refine filter_congr fun node _ => ?_
      rw [Bool.eq_iff_iff]
      simp only [mem_append, mem_singleton, decide_eq_true_eq, Bool.and_eq_true, bne_iff_ne]
      tauto
    rw [erased, length_erase_of_mem found]
    have pos := length_pos_of_mem found
    omega
  · rename_i other
    refine congrArg (fun list : List Node => (list.length : Int)) ?_
    refine filter_congr fun node _ => ?_
    rw [Bool.eq_iff_iff]
    simp only [mem_append, mem_singleton, decide_eq_true_eq, not_or]
    refine and_congr_right fun dependent => and_iff_left fun same => other (same ▸ dependent)

theorem Visited.step (rooted : Rooted deps nodes root) (visited : Visited deps nodes root state)
    {current : Node} {rest : List Node} (next : state.toVisit = current :: rest) :
    Visited deps nodes root ((deps current).foldl countDown
      { state with order := state.order ++ [current], toVisit := rest }) := by
  obtain ⟨nodup, nodes_of_mem, counts, seen_iff, ordered, first⟩ := visited
  rw [next] at nodup nodes_of_mem seen_iff first
  have isNode : current ∈ nodes := nodes_of_mem current (mem_append_right _ mem_cons_self)
  have fresh : current ∉ state.order := fun old =>
    (nodup_append.mp nodup).2.2 _ old _ mem_cons_self rfl
  have dependentsSeen : ∀ node ∈ state.order, ∀ other ∈ nodes, node ∈ deps other →
      other ∈ state.order := by
    intro node old other mem dependent
    have seen := (seen_iff node (nodes_of_mem node (mem_append_left _ old))).mp
      (mem_append_left _ old)
    rcases seen with same | ⟨-, all⟩
    · exact absurd (same ▸ dependent) (rooted.root_free other mem)
    · exact all other mem dependent
  have counted : ∀ dep, ((dependents deps nodes (state.order ++ [current]) dep).length : Int) =
      if dep ∈ deps current then state.inDegree dep - 1 else state.inDegree dep := by
    intro dep
    rw [dependents_append rooted.nodup isNode fresh, counts dep]
  -- the new ones are the dependencies of the visited node that nothing else waits for
  have new_iff : ∀ dep ∈ nodes, dep ∈ (deps current).filter
      (fun dep => state.inDegree dep - 1 = 0) ↔
        dep ∈ deps current ∧ ∀ node ∈ nodes, dep ∈ deps node → node ∈ state.order ++ [current] := by
    intro dep mem
    rw [mem_filter, decide_eq_true_eq]
    refine and_congr_right fun dependent => ?_
    have count := counted dep
    rw [if_pos dependent] at count
    rw [← count, Int.natCast_eq_zero, length_eq_zero_iff]
    refine filter_eq_nil_iff.trans (forall₂_congr fun node _ => ?_)
    rw [decide_eq_true_eq, not_and, not_not]
  have apart : ∀ dep ∈ (deps current).filter (fun dep => state.inDegree dep - 1 = 0),
      dep ∉ state.order ++ current :: rest := by
    intro dep new old
    have dependent := (mem_filter.mp new).1
    rcases (seen_iff dep (nodes_of_mem dep old)).mp old with same | ⟨-, all⟩
    · exact rooted.root_free current isNode (same ▸ dependent)
    · exact fresh (all current isNode dependent)
  have joined : state.order ++ [current] ++ (rest ++ (deps current).filter
      fun dep => state.inDegree dep - 1 = 0) = (state.order ++ current :: rest) ++
        (deps current).filter fun dep => state.inDegree dep - 1 = 0 := by simp
  rw [foldl_countDown _ (rooted.deps_nodup current isNode)]
  refine ⟨?_, ?_, fun dep => (counted dep).symm, fun dep mem => ?_, ?_, ?_⟩
  · rw [joined]
    refine nodup_append.mpr ⟨nodup, (rooted.deps_nodup current isNode).filter _, ?_⟩
    exact fun old seen new added same => apart new added (same ▸ seen)
  · rw [joined]
    intro node mem
    rcases mem_append.mp mem with old | new
    · exact nodes_of_mem node old
    · exact rooted.deps_mem current isNode node (mem_filter.mp new).1
  · rw [joined, mem_append, new_iff dep mem, seen_iff dep mem]
    constructor
    · rintro ((same | ⟨some, all⟩) | ⟨dependent, all⟩)
      · exact .inl same
      · exact .inr ⟨some, fun node isNode needed => mem_append_left _ (all node isNode needed)⟩
      · exact .inr ⟨⟨current, isNode, dependent⟩, all⟩
    · rintro (same | ⟨some, all⟩)
      · exact .inl (.inl same)
      · by_cases dependent : dep ∈ deps current
        · exact .inr ⟨dependent, all⟩
        · refine .inl (.inr ⟨some, fun node isNode needed => ?_⟩)
          rcases mem_append.mp (all node isNode needed) with old | last
          · exact old
          · exact absurd (mem_singleton.mp last ▸ needed) dependent
  · refine pairwise_append.mpr ⟨ordered, pairwise_singleton _ _, ?_⟩
    intro node old last mem dependent
    rw [mem_singleton.mp mem] at dependent
    exact fresh (dependentsSeen node old current isNode dependent)
  · rw [joined, head?_append, first]
    rfl

theorem visited_initial (rooted : Rooted deps nodes root) :
    Visited deps nodes root
      ⟨[], [root], fun dep => (dependents deps nodes [] dep).length⟩ := by
  refine ⟨nodup_singleton root, ?_, fun _ => rfl, fun dep mem => ?_, .nil, rfl⟩
  · intro node mem
    exact mem_singleton.mp mem ▸ rooted.root_mem
  · rw [nil_append, mem_singleton]
    refine ⟨.inl, ?_⟩
    rintro (same | ⟨⟨node, isNode, needed⟩, all⟩)
    · exact same
    · exact absurd (all node isNode needed) not_mem_nil

theorem Visited.length_le (visited : Visited deps nodes root state) :
    (state.order ++ state.toVisit).length ≤ nodes.length :=
  (visited.nodup.subperm visited.nodes_of_mem).length_le

section

variable (rooted : Rooted deps nodes root)
include rooted

/-- When nothing is left to visit, every node was visited: by induction from the root down. -/
theorem Visited.complete (visited : Visited deps nodes root state) (finished : state.toVisit = []) :
    state.order.Perm nodes := by
  have seen : ∀ node, node ∈ nodes → node ∈ state.order := by
    intro node
    induction node using rooted.wellFounded.induction with
    | _ node ih =>
      intro mem
      have found := (visited.seen_iff node mem).mpr <| by
        rcases rooted.others node mem with same | some
        · exact .inl same
        · exact .inr ⟨some, fun other isNode needed => ih other needed isNode⟩
      rwa [finished, append_nil] at found
  have distinct := visited.nodup
  have nodes_of_mem := visited.nodes_of_mem
  rw [finished, append_nil] at distinct nodes_of_mem
  exact (perm_ext_iff_of_nodup distinct rooted.nodup).mpr fun node => ⟨nodes_of_mem node, seen node⟩

theorem Visited.visit_ok (turns : Nat) (visited : Visited deps nodes root state)
    (enough : nodes.length ≤ state.order.length + turns) :
    ∃ order, visit deps turns state = some order ∧ order.Perm nodes ∧
      (order.Pairwise fun first second => first ∉ deps second) ∧ order.head? = some root := by
  have res : ∀ {state : Visit Node}, Visited deps nodes root state → state.toVisit = [] →
      state.order.Perm nodes ∧ (state.order.Pairwise fun first second => first ∉ deps second) ∧
        state.order.head? = some root := by
    intro state visited finished
    have first := visited.first
    rw [finished, append_nil] at first
    exact ⟨visited.complete rooted finished, visited.ordered, first⟩
  induction turns generalizing state with
  | zero =>
    have length := visited.length_le
    rw [length_append] at length
    have finished : state.toVisit = [] := length_eq_zero_iff.mp (by omega)
    exact ⟨_, if_pos finished, res visited finished⟩
  | succ turns ih =>
    rw [visit]
    split
    · rename_i finished
      exact ⟨_, rfl, res visited finished⟩
    · rename_i current rest next
      have stepped := visited.step rooted next
      have isNode : current ∈ nodes := visited.nodes_of_mem current
        (next ▸ mem_append_right _ mem_cons_self)
      have order : ((deps current).foldl countDown
          { state with order := state.order ++ [current], toVisit := rest }).order =
          state.order ++ [current] := by
        rw [foldl_countDown _ (rooted.deps_nodup current isNode)]
      refine ih stepped ?_
      rw [order, length_append, length_singleton]
      omega

/-- From the root, all nodes are visited, and none before a node that depends on it. -/
theorem visit_root :
    ∃ order, visit deps nodes.length
        ⟨[], [root], fun dep => (dependents deps nodes [] dep).length⟩ = some order ∧
      order.Perm nodes ∧ (order.Pairwise fun first second => first ∉ deps second) ∧
      order.head? = some root :=
  (visited_initial rooted).visit_ok rooted nodes.length (Nat.le_add_left _ _)

end

end NpuPlugin.TopologicalOrder

namespace NpuPlugin.DependencyOrder

open List

variable {Node : Type} {deps : Node → List Node} {order : List Node}

/-- Every element comes after those it depends on. -/
def Ordered (deps : Node → List Node) (order : List Node) : Prop :=
  ∀ before node after, order = before ++ node :: after → deps node ⊆ before

theorem ordered_nil : Ordered deps [] := by
  intro before node after same
  exact absurd same.symm (append_ne_nil_of_right_ne_nil _ (cons_ne_nil _ _))

/-- An element whose dependencies are there can be added. -/
theorem Ordered.concat (ordered : Ordered deps order) {node : Node} (ready : deps node ⊆ order) :
    Ordered deps (order ++ [node]) := by
  intro before other after same
  rcases eq_nil_or_concat after with rfl | ⟨inner, last, rfl⟩
  · obtain ⟨rfl, sameNode⟩ := append_inj' same rfl
    cases sameNode
    exact ready
  · rw [concat_eq_append, ← cons_append, ← append_assoc] at same
    exact ordered before other inner (append_inj' same rfl).1

theorem Ordered.subset (ordered : Ordered deps order) {node : Node} (mem : node ∈ order) :
    deps node ⊆ order := by
  obtain ⟨before, after, rfl⟩ := append_of_mem mem
  exact subset_append_of_subset_left _ (ordered before node after rfl)

theorem ordered_iff : Ordered deps order ↔
    ∀ place : Fin order.length, ∀ dep ∈ deps (order.get place), dep ∈ order.take place := by
  constructor
  · intro ordered place
    refine ordered (order.take place) (order.get place) (order.drop (place + 1)) ?_
    rw [get_eq_getElem, ← drop_eq_getElem_cons, take_append_drop]
  · rintro each before node after rfl
    have inside : before.length < (before ++ node :: after).length := by simp
    have found : ∀ dep ∈ deps node, dep ∈ before := by simpa using each ⟨before.length, inside⟩
    exact found

instance [DecidableEq Node] : Decidable (Ordered deps order) := decidable_of_iff' _ ordered_iff

end NpuPlugin.DependencyOrder
