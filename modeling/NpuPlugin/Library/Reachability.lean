/-
This file is about the transitive closure of a relation between numbered nodes. Edges that are
bypassed by a path can all be removed at once where edges lead to larger nodes, or where finitely
many nodes have no cycles, and what is left is the only transitive reduction. A node can be
eliminated when the paths through it are kept as paths around it. The measure of a worklist that
only gets greater nodes for a node that is taken out follows.
-/

import Mathlib.Algebra.Order.Ring.GeomSum

namespace NpuPlugin

namespace Reachability

open Finset Relation

variable {edge kept : Nat → Nat → Prop}

/-- Every edge leads to a larger node. -/
def Increasing (edge : Nat → Nat → Prop) : Prop :=
  ∀ {lower upper : Nat}, edge lower upper → lower < upper

/-- Every edge that is not kept is bypassed by a path through another node. -/
def Bypassed (edge kept : Nat → Nat → Prop) : Prop :=
  ∀ {lower upper : Nat}, edge lower upper → kept lower upper ∨
    ∃ middle, TransGen edge lower middle ∧ TransGen edge middle upper

variable {lower upper : Nat}

theorem Increasing.lt_of_transGen (increasing : Increasing edge)
    (path : TransGen edge lower upper) : lower < upper := by
  induction path with
  | single step => exact increasing step
  | tail _ step ih => exact ih.trans (increasing step)

/-- A path is a path of kept edges, by induction on a measure that is smaller for both halves of
a path. -/
theorem transGen_kept_of_measure (measure : Nat → Nat → Nat)
    (shorter : ∀ {lower middle upper : Nat}, TransGen edge lower middle →
      TransGen edge middle upper →
      measure lower middle < measure lower upper ∧ measure middle upper < measure lower upper)
    (bypassed : Bypassed edge kept) (size : Nat) : ∀ {lower upper : Nat},
      measure lower upper ≤ size → TransGen edge lower upper → TransGen kept lower upper := by
  induction size using Nat.strong_induction_on with
  | _ size ih =>
    intro lower upper small path
    have joined : ∀ {middle : Nat}, TransGen edge lower middle → TransGen edge middle upper →
        TransGen kept lower upper := by
      intro middle first second
      obtain ⟨lessFirst, lessSecond⟩ := shorter first second
      exact (ih _ (lessFirst.trans_le small) le_rfl first).trans
        (ih _ (lessSecond.trans_le small) le_rfl second)
    cases path with
    | single step =>
      rcases bypassed step with stays | ⟨middle, first, second⟩
      · exact TransGen.single stays
      · exact joined first second
    | tail first step => exact joined first (TransGen.single step)

/-- Where edges lead to larger nodes, the measure of a path is its length in node numbers. -/
theorem transGen_kept (increasing : Increasing edge) (bypassed : Bypassed edge kept)
    (path : TransGen edge lower upper) : TransGen kept lower upper := by
  refine transGen_kept_of_measure (fun lower upper => upper - lower) ?_ bypassed _ le_rfl path
  intro lower middle upper first second
  have less := increasing.lt_of_transGen first
  have greater := increasing.lt_of_transGen second
  exact ⟨by omega, by omega⟩

/-- Removing bypassed edges does not change which nodes are connected. -/
theorem transGen_iff_of_bypassed (increasing : Increasing edge) (bypassed : Bypassed edge kept)
    (subrelation : ∀ {lower upper : Nat}, kept lower upper → edge lower upper) :
    TransGen kept lower upper ↔ TransGen edge lower upper :=
  ⟨fun path => TransGen.mono (fun _ _ => subrelation) _ _ path, transGen_kept increasing bypassed⟩

/-! ### Relations without cycles -/

/-- No node reaches itself. -/
def Acyclic (edge : Nat → Nat → Prop) : Prop := ∀ node, ¬ TransGen edge node node

theorem Increasing.acyclic (increasing : Increasing edge) : Acyclic edge :=
  fun _ path => lt_irrefl _ (increasing.lt_of_transGen path)

/-- A number that grows along every edge rules out cycles. -/
theorem acyclic_of_measure (measure : Nat → Nat)
    (grows : ∀ {lower upper : Nat}, edge lower upper → measure lower < measure upper) :
    Acyclic edge := by
  have less : ∀ {lower upper}, TransGen edge lower upper → measure lower < measure upper := by
    intro lower upper path
    induction path with
    | single step => exact grows step
    | tail _ step ih => exact ih.trans (grows step)
  exact fun _ path => lt_irrefl _ (less path)

theorem Acyclic.swap (acyclic : Acyclic edge) : Acyclic (Function.swap edge) :=
  fun node path => acyclic node (transGen_swap.mp path)

open Classical in
/-- The nodes below the count that reach a node become more along every edge. -/
theorem Acyclic.wellFounded (acyclic : Acyclic edge) (count : Nat)
    (bounded : ∀ lower upper, edge lower upper → lower < count) : WellFounded edge := by
  let before := fun node => (range count).filter fun other => TransGen edge other node
  have grows : ∀ {lower upper}, edge lower upper → (before lower).card < (before upper).card := by
    intro lower upper step
    refine card_lt_card ⟨fun other mem => ?_, fun contained => ?_⟩
    · obtain ⟨inside, path⟩ := mem_filter.mp mem
      exact mem_filter.mpr ⟨inside, path.tail step⟩
    · have itself : lower ∈ before upper := mem_filter.mpr
        ⟨mem_range.mpr (bounded lower upper step), .single step⟩
      exact acyclic lower (mem_filter.mp (contained itself)).2
  exact Subrelation.wf grows (InvImage.wf (fun node => (before node).card) Nat.lt_wfRel.wf)

/-! ### Removing edges of a relation without cycles -/

open Classical in
/-- The nodes below the count that lie on a path from one node to another. -/
noncomputable def between (edge : Nat → Nat → Prop) (count lower upper : Nat) : Finset Nat :=
  (Finset.range count).filter fun node => TransGen edge lower node ∧ TransGen edge node upper

open Classical in
theorem mem_between {count lower upper node : Nat} :
    node ∈ between edge count lower upper ↔
      node < count ∧ TransGen edge lower node ∧ TransGen edge node upper := by
  rw [between, mem_filter, mem_range]

variable {count lower upper : Nat}

theorem lt_of_transGen_of_bounded (bounded : ∀ lower upper, edge lower upper → lower < count)
    (path : TransGen edge lower upper) : lower < count := by
  obtain ⟨next, step, -⟩ := TransGen.head'_iff.mp path
  exact bounded lower next step

section

variable (acyclic : Acyclic edge) (bounded : ∀ lower upper, edge lower upper → lower < count)
include acyclic bounded

/-- The two halves of a path have fewer nodes between their ends than the path. -/
theorem Acyclic.card_between_lt {middle : Nat} (first : TransGen edge lower middle)
    (second : TransGen edge middle upper) :
    (between edge count lower middle).card < (between edge count lower upper).card ∧
      (between edge count middle upper).card < (between edge count lower upper).card := by
  have inside : middle ∈ between edge count lower upper :=
    mem_between.mpr ⟨lt_of_transGen_of_bounded bounded second, first, second⟩
  constructor
  · refine card_lt_card ⟨fun node mem => ?_, fun contained => ?_⟩
    · obtain ⟨small, before, after⟩ := mem_between.mp mem
      exact mem_between.mpr ⟨small, before, after.trans second⟩
    · exact acyclic middle (mem_between.mp (contained inside)).2.2
  · refine card_lt_card ⟨fun node mem => ?_, fun contained => ?_⟩
    · obtain ⟨small, before, after⟩ := mem_between.mp mem
      exact mem_between.mpr ⟨small, first.trans before, after⟩
    · exact acyclic middle (mem_between.mp (contained inside)).2.1

/-- The same nodes are connected. -/
def SameReachability (edge other : Nat → Nat → Prop) : Prop :=
  ∀ lower upper, TransGen other lower upper ↔ TransGen edge lower upper

/-- Removing bypassed edges of a relation without cycles keeps what is connected. -/
theorem Acyclic.sameReachability (bypassed : Bypassed edge kept)
    (subrelation : ∀ lower upper, kept lower upper → edge lower upper) :
    SameReachability edge kept :=
  fun _ _ => ⟨fun path => TransGen.mono subrelation _ _ path,
    transGen_kept_of_measure (fun lower upper => (between edge count lower upper).card)
      (acyclic.card_between_lt bounded) bypassed _ le_rfl⟩

end

/-- A relation that connects the same nodes and of which no edge can be spared. -/
def TransitiveReduction (edge reduced : Nat → Nat → Prop) : Prop :=
  SameReachability edge reduced ∧
    ∀ smaller : Nat → Nat → Prop, (∀ lower upper, smaller lower upper → reduced lower upper) →
      SameReachability edge smaller → smaller = reduced

/-- An edge that no path bypasses is an edge of every relation with the same reachability. -/
theorem SameReachability.edge_of_not_bypassed {other : Nat → Nat → Prop}
    (same : SameReachability edge other) (step : edge lower upper)
    (direct : ¬ ∃ middle, TransGen edge lower middle ∧ TransGen edge middle upper) :
    other lower upper := by
  cases (same lower upper).mpr (TransGen.single step) with
  | single stays => exact stays
  | tail first last =>
    exact absurd ⟨_, (same _ _).mp first, (same _ _).mp (TransGen.single last)⟩ direct

/-- What is left without any bypassed edge is the only transitive reduction. -/
theorem transitiveReduction_iff {reduced : Nat → Nat → Prop} (same : SameReachability edge reduced)
    (subrelation : ∀ lower upper, reduced lower upper → edge lower upper)
    (direct : ∀ lower upper, reduced lower upper →
      ¬ ∃ middle, TransGen edge lower middle ∧ TransGen edge middle upper)
    (other : Nat → Nat → Prop) : TransitiveReduction edge other ↔ other = reduced := by
  have least : ∀ relation : Nat → Nat → Prop, SameReachability edge relation →
      ∀ lower upper, reduced lower upper → relation lower upper :=
    fun relation sameRelation lower upper step =>
      sameRelation.edge_of_not_bypassed (subrelation lower upper step) (direct lower upper step)
  constructor
  · intro reduction
    exact (reduction.2 reduced (least other reduction.1) same).symm
  · intro equal
    rw [equal]
    refine ⟨same, fun smaller contained sameSmaller => ?_⟩
    funext lower upper
    exact propext ⟨contained lower upper, least smaller sameSmaller lower upper⟩

/-! ### Eliminating a node -/

/-- Paths between other nodes remain when those that pass a node in two edges do. -/
theorem transGen_of_eliminated {Node : Type} {edge left : Node → Node → Prop} {node : Node}
    (loopless : ¬ edge node node)
    (others : ∀ {lower upper}, lower ≠ node → upper ≠ node → edge lower upper →
      TransGen left lower upper)
    (through : ∀ {lower upper}, lower ≠ node → upper ≠ node → edge lower node →
      edge node upper → TransGen left lower upper) {lower upper : Node} (lowerOther : lower ≠ node)
    (upperOther : upper ≠ node) (path : TransGen edge lower upper) : TransGen left lower upper := by
  -- a path to the node itself ends with an edge from another one
  have reached : ∀ {last}, TransGen edge lower last → (last ≠ node → TransGen left lower last) ∧
      (last = node → ∃ before, before ≠ node ∧ edge before node ∧
        (before = lower ∨ TransGen left lower before)) := by
    intro last path
    induction path with
    | single step =>
      exact ⟨fun other => others lowerOther other step,
        fun same => ⟨lower, lowerOther, same ▸ step, .inl rfl⟩⟩
    | @tail middle last _ step ih =>
      obtain ⟨outside, inside⟩ := ih
      by_cases middleSame : middle = node
      · obtain ⟨before, beforeOther, first, reached⟩ := inside middleSame
        rw [middleSame] at step
        refine ⟨fun other => ?_, fun same => absurd (same ▸ step) loopless⟩
        have second := through beforeOther other first step
        rcases reached with same | whole
        · exact same ▸ second
        · exact whole.trans second
      · exact ⟨fun other => (outside middleSame).trans (others middleSame other step),
          fun same => ⟨middle, middleSame, same ▸ step, .inr (outside middleSame)⟩⟩
  exact (reached path).1 upperOther

end Reachability

end NpuPlugin

namespace NpuPlugin.Worklist

open Finset

/-- The weight of a set of nodes below a number. -/
def weight (size : Nat) (nodes : Finset Nat) : Nat := ∑ node ∈ nodes, 2 ^ (size - 1 - node)

variable {size : Nat} {nodes : Finset Nat}

theorem weight_lt_pow {bound : Nat}
    (below : ∀ node ∈ nodes, node < size ∧ size - 1 - node < bound) :
    weight size nodes < 2 ^ bound := by
  have distinct : Set.InjOn (fun node => size - 1 - node) (nodes : Set Nat) := by
    intro first firstMember second secondMember same
    have firstBelow := (below first firstMember).1
    have secondBelow := (below second secondMember).1
    dsimp only at same
    omega
  unfold weight
  rw [← sum_image (f := fun exponent => 2 ^ exponent) distinct]
  refine Nat.geomSum_lt (le_refl 2) fun exponent mem => ?_
  obtain ⟨node, nodeMember, rfl⟩ := mem_image.mp mem
  exact (below node nodeMember).2

theorem weight_lt (below : ∀ node ∈ nodes, node < size) : weight size nodes < 2 ^ size := by
  refine weight_lt_pow fun node mem => ?_
  have less := below node mem
  omega

/-- Taking a node out and putting greater ones in lowers the weight. -/
theorem weight_lt_of_replaced {node : Nat} {rest added after : Finset Nat} (apart : node ∉ rest)
    (above : ∀ other ∈ added, node < other ∧ other < size) (replaced : after ⊆ rest ∪ added) :
    weight size after < weight size (insert node rest) := by
  have whole : weight size (insert node rest) = 2 ^ (size - 1 - node) + weight size rest :=
    sum_insert apart
  have monotone : weight size after ≤ weight size (rest ∪ added) := sum_le_sum_of_subset replaced
  have union : weight size (rest ∪ added) + weight size (rest ∩ added) =
      weight size rest + weight size added := sum_union_inter
  have light : weight size added < 2 ^ (size - 1 - node) := by
    refine weight_lt_pow fun other mem => ?_
    have otherAbove := above other mem
    omega
  omega

end NpuPlugin.Worklist
