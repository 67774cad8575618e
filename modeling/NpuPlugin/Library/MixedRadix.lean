/-
This file is about boxes of indices that are numbered row by row. The number of an index is a sum
with one step for each axis, and two such sums agree on a box when their steps agree on every axis
with more than one position. A buffer is moved by axes with keys, which are in the order of the keys
in the buffer and in the order in which they are walked in the list.
-/

import Mathlib.Algebra.BigOperators.Group.List.Basic
import Mathlib.Data.List.GetD
import Mathlib.Data.List.Sort
import Mathlib.Tactic.Ring

namespace NpuPlugin.MixedRadix

open List Nat

variable {extents steps others index order : List Nat}

/-! ### Boxes -/

def Inside : List Nat → List Nat → Prop
  | [], [] => True
  | extent :: extents, position :: positions => position < extent ∧ Inside extents positions
  | _, _ => False

/-- The indices of a box, where the last axis varies fastest. -/
def indices : List Nat → List (List Nat)
  | [] => [[]]
  | extent :: extents =>
    (List.range extent).flatMap fun position => (indices extents).map (position :: ·)

theorem mem_indices : index ∈ indices extents ↔ Inside extents index := by
  induction extents generalizing index with
  | nil => cases index <;> simp [indices, Inside]
  | cons extent extents ih =>
    cases index with
    | nil => simp [indices, Inside]
    | cons position positions => simp [indices, Inside, ih]

theorem inside_iff_getD : Inside extents index ↔
    index.length = extents.length ∧
      ∀ axis < extents.length, index.getD axis 0 < extents.getD axis 0 := by
  induction extents generalizing index with
  | nil => cases index <;> simp [Inside]
  | cons extent extents ih =>
    cases index with
    | nil => simp [Inside]
    | cons position positions =>
      rw [Inside, ih, length_cons, length_cons, succ_inj]
      constructor
      · rintro ⟨first, same, rest⟩
        refine ⟨same, fun axis inside => ?_⟩
        cases axis with
        | zero => exact first
        | succ axis => exact rest axis (lt_of_succ_lt_succ inside)
      · rintro ⟨same, each⟩
        exact ⟨each 0 (zero_lt_succ _), same, fun axis inside =>
          each (axis + 1) (succ_lt_succ inside)⟩

/-! ### Sums of steps -/

def dot : List Nat → List Nat → Nat
  | step :: steps, position :: positions => position * step + dot steps positions
  | _, _ => 0

/-- The distances of neighbours on each axis. -/
def strides : List Nat → List Nat
  | [] => []
  | _ :: extents => extents.prod :: strides extents

def flatten (extents index : List Nat) : Nat := dot (strides extents) index

@[simp] theorem length_strides : (strides extents).length = extents.length := by
  induction extents with
  | nil => rfl
  | cons extent extents ih => rw [strides, length_cons, length_cons, ih]

theorem range_mul (rows columns : Nat) :
    ((List.range rows).flatMap fun row =>
      (List.range columns).map fun column => row * columns + column) =
        List.range (rows * columns) := by
  induction rows with
  | zero => simp
  | succ rows ih => rw [range_succ, flatMap_append, ih, flatMap_singleton, succ_mul, range_add]

/-- The indices are numbered in their order. -/
theorem map_flatten_indices (extents : List Nat) :
    (indices extents).map (flatten extents) = List.range extents.prod := by
  induction extents with
  | nil => rfl
  | cons extent extents ih =>
    rw [prod_cons, ← range_mul, ← ih, indices, map_flatMap]
    refine flatMap_congr fun position _ => ?_
    rw [map_map, map_map]
    rfl

theorem flatten_lt (inside : Inside extents index) : flatten extents index < extents.prod := by
  rw [← mem_range, ← map_flatten_indices]
  exact mem_map_of_mem (mem_indices.mpr inside)

theorem exists_flatten {number : Nat} (less : number < extents.prod) :
    ∃ index, Inside extents index ∧ flatten extents index = number := by
  rw [← mem_range, ← map_flatten_indices, mem_map] at less
  obtain ⟨index, mem, same⟩ := less
  exact ⟨index, mem_indices.mp mem, same⟩

theorem nodup_indices (extents : List Nat) : (indices extents).Nodup := by
  refine List.Nodup.of_map (flatten extents) ?_
  rw [map_flatten_indices]
  exact nodup_range

theorem flatten_injective {other : List Nat} (inside : Inside extents index)
    (otherInside : Inside extents other) (same : flatten extents index = flatten extents other) :
    index = other := by
  refine inj_on_of_nodup_map ?_ (mem_indices.mpr inside) (mem_indices.mpr otherInside) same
  rw [map_flatten_indices]
  exact nodup_range

/-- Steps that agree on every axis with more than one position. -/
def Agree : List Nat → List Nat → List Nat → Prop
  | extent :: extents, step :: steps, other :: others =>
    (1 < extent → step = other) ∧ Agree extents steps others
  | _, _, _ => True

instance decidableAgree : (extents steps others : List Nat) → Decidable (Agree extents steps others)
  | _ :: extents, _ :: steps, _ :: others =>
    have := decidableAgree extents steps others
    inferInstanceAs (Decidable (_ ∧ _))
  | [], _, _ => inferInstanceAs (Decidable True)
  | _ :: _, [], _ => inferInstanceAs (Decidable True)
  | _ :: _, _ :: _, [] => inferInstanceAs (Decidable True)

theorem dot_zeros (steps : List Nat) (count : Nat) : dot steps (List.replicate count 0) = 0 := by
  induction steps generalizing count with
  | nil => rfl
  | cons step steps ih =>
    cases count with
    | zero => rfl
    | succ count => rw [replicate_succ, dot, ih, zero_mul]

theorem inside_zeros (nonempty : extents.prod ≠ 0) :
    Inside extents (List.replicate extents.length 0) := by
  induction extents with
  | nil => trivial
  | cons extent extents ih =>
    rw [prod_cons] at nonempty
    exact ⟨pos_of_ne_zero (left_ne_zero_of_mul nonempty), ih (right_ne_zero_of_mul nonempty)⟩

/-- Two sums are the same on a box when their steps agree. -/
theorem dot_eq_iff_agree (nonempty : extents.prod ≠ 0) (length : steps.length = extents.length)
    (otherLength : others.length = extents.length) :
    (∀ index, Inside extents index → dot steps index = dot others index) ↔
      Agree extents steps others := by
  induction extents generalizing steps others with
  | nil =>
    rw [length_nil, length_eq_zero_iff] at length otherLength
    subst length otherLength
    exact ⟨fun _ => trivial, fun _ _ _ => rfl⟩
  | cons extent extents ih =>
    obtain ⟨step, steps, rfl⟩ := exists_cons_of_length_eq_add_one length
    obtain ⟨other, others, rfl⟩ := exists_cons_of_length_eq_add_one otherLength
    rw [prod_cons] at nonempty
    have pos := pos_of_ne_zero (left_ne_zero_of_mul nonempty)
    have restNonempty := right_ne_zero_of_mul nonempty
    rw [Agree, ← ih restNonempty (succ.inj length) (succ.inj otherLength)]
    constructor
    · intro same
      constructor
      · intro several
        have unit := same (1 :: replicate extents.length 0)
          ⟨several, inside_zeros restNonempty⟩
        simpa only [dot, dot_zeros, one_mul, add_zero] using unit
      · intro index inside
        simpa only [dot, zero_mul, zero_add] using same (0 :: index) ⟨pos, inside⟩
    · rintro ⟨first, rest⟩ index inside
      cases index with
      | nil => rfl
      | cons position positions =>
        obtain ⟨less, restInside⟩ := inside
        rw [dot, dot, rest positions restInside]
        rcases Nat.eq_zero_or_pos position with rfl | moved
        · rw [zero_mul, zero_mul]
        · rw [first (lt_of_le_of_lt moved less)]

/-! ### Orders of the axes -/

/-- The values in the given order of axes. -/
def gather (order values : List Nat) : List Nat := order.map fun axis => values.getD axis 0

/-- Where each axis is in the order. -/
def positions (order : List Nat) : List Nat :=
  (List.range order.length).map fun axis => order.idxOf axis

@[simp] theorem length_gather {values : List Nat} : (gather order values).length = order.length :=
  length_map _

@[simp] theorem length_positions : (positions order).length = order.length := by simp [positions]

theorem getD_gather {values : List Nat} {position : Nat} (inside : position < order.length) :
    (gather order values).getD position 0 = values.getD (order.getD position 0) 0 := by
  simp [gather, getD_eq_getElem?_getD, inside]

section

variable (isOrder : order.Perm (List.range extents.length))

include isOrder

theorem order_length : order.length = extents.length := by rw [isOrder.length_eq, length_range]

theorem order_nodup : order.Nodup := isOrder.nodup_iff.mpr nodup_range

theorem mem_order {axis : Nat} : axis ∈ order ↔ axis < extents.length := by
  rw [isOrder.mem_iff, mem_range]

theorem inside_gather (inside : Inside extents index) :
    Inside (gather order extents) (gather order index) := by
  rw [inside_iff_getD] at inside ⊢
  rw [length_gather, length_gather]
  refine ⟨rfl, fun position bound => ?_⟩
  rw [getD_gather bound, getD_gather bound]
  refine inside.2 _ ((mem_order isOrder).mp ?_)
  rw [getD_eq_getElem _ _ bound]
  exact getElem_mem bound

theorem prod_gather : (gather order extents).prod = extents.prod := by
  have same : gather (range extents.length) extents = extents := by
    refine ext_getElem (by simp [gather]) fun axis _ inside => ?_
    simp [gather, getD_eq_getElem?_getD, inside]
  unfold gather at same ⊢
  rw [(isOrder.map _).prod_eq, same]

/-- A sum over the axes in another order is the sum with the steps in their own order. -/
theorem dot_gather (isLength : steps.length = extents.length)
    (indexLength : index.length = extents.length) :
    dot steps (gather order index) = dot (gather (positions order) steps) index := by
  have toSum : ∀ steps index : List Nat, steps.length = index.length → dot steps index =
      ((range index.length).map fun axis => index.getD axis 0 * steps.getD axis 0).sum := by
    intro steps index same
    induction steps generalizing index with
    | nil =>
      rw [length_nil, eq_comm, length_eq_zero_iff] at same
      subst same
      rfl
    | cons step steps ih =>
      obtain ⟨position, rest, rfl⟩ := exists_cons_of_length_eq_add_one same.symm
      rw [dot, ih rest (succ.inj same), length_cons, range_succ_eq_map, map_cons, sum_cons, map_map]
      rfl
  have orderLength := order_length isOrder
  rw [toSum _ _ (by rw [length_gather, orderLength, isLength]),
    toSum _ _ (by rw [length_gather, length_positions, orderLength, indexLength]), length_gather,
    indexLength, ← (isOrder.map _).sum_eq]
  refine congrArg sum (ext_getElem (by simp) fun position _ inside => ?_)
  rw [length_map] at inside
  have isAxis : order[position] < order.length :=
    orderLength ▸ (mem_order isOrder).mp (getElem_mem inside)
  simp [gather, positions, getD_eq_getElem?_getD, inside, isAxis,
    (order_nodup isOrder).idxOf_getElem]

end

section

variable {values : List Nat} (isOrder : order.Perm (List.range order.length))
  (length : values.length = order.length)
include isOrder length

theorem gather_positions_gather : gather (positions order) (gather order values) = values := by
  refine ext_getElem (by simp [length]) fun axis _ inside => ?_
  have isAxis : axis ∈ order := by rwa [isOrder.mem_iff, mem_range, ← length]
  have less : order.idxOf axis < order.length := idxOf_lt_length_iff.mpr isAxis
  simp [gather, positions, getD_eq_getElem?_getD, less, inside]

theorem gather_gather_positions : gather order (gather (positions order) values) = values := by
  refine ext_getElem (by simp [length]) fun position _ inside => ?_
  have bound : position < order.length := length ▸ inside
  have isAxis : order[position] < order.length := by
    rw [← mem_range, ← isOrder.mem_iff]
    exact getElem_mem bound
  have nodup : order.Nodup := isOrder.nodup_iff.mpr nodup_range
  simp [gather, positions, getD_eq_getElem?_getD, isAxis, inside, nodup.idxOf_getElem]

end

theorem getD_gather_idxOf {values : List Nat} {axis : Nat} (mem : axis ∈ order) :
    (gather order values).getD (order.idxOf axis) 0 = values.getD axis 0 := by
  have less : order.idxOf axis < order.length := idxOf_lt_length_iff.mpr mem
  have found : order.getD (order.idxOf axis) 0 = axis := by
    rw [getD_eq_getElem _ _ less, getElem_idxOf]
  rw [getD_gather less, found]

theorem gather_injective (isOrder : order.Perm (List.range order.length)) {one other : List Nat}
    (oneLength : one.length = order.length) (otherLength : other.length = order.length)
    (same : gather order one = gather order other) : one = other := by
  rw [← gather_positions_gather isOrder oneLength, ← gather_positions_gather isOrder otherLength,
    same]

/-- The box with its axes in another order has the same indices, in that order. -/
theorem indices_gather_perm (isOrder : order.Perm (List.range extents.length)) :
    (indices (gather order extents)).Perm ((indices extents).map (gather order)) := by
  have length := order_length isOrder
  have isOwnOrder : order.Perm (range order.length) := length ▸ isOrder
  have sameLength : ∀ index ∈ indices extents, index.length = order.length := fun index inside =>
    (inside_iff_getD.mp (mem_indices.mp inside)).1.trans length.symm
  rw [perm_ext_iff_of_nodup (nodup_indices _) ((nodup_map_iff_inj_on
    (nodup_indices _)).mpr fun one oneInside other otherInside same =>
      gather_injective isOwnOrder (sameLength one oneInside) (sameLength other otherInside) same)]
  intro index
  rw [mem_indices, mem_map]
  constructor
  · intro inside
    have indexLength : index.length = order.length := by
      rw [(inside_iff_getD.mp inside).1, length_gather]
    refine ⟨gather (positions order) index, mem_indices.mpr ?_,
      gather_gather_positions isOwnOrder indexLength⟩
    rw [inside_iff_getD, length_gather] at inside ⊢
    refine ⟨length_positions.trans length, fun axis bound => ?_⟩
    have isAxis : axis ∈ order := (mem_order isOrder).mpr bound
    have less : order.idxOf axis < order.length := idxOf_lt_length_iff.mpr isAxis
    have here := inside.2 _ less
    rw [getD_gather_idxOf isAxis] at here
    simpa [gather, positions, getD_eq_getElem?_getD, length, bound, less] using here
  · rintro ⟨index, inside, rfl⟩
    exact inside_gather isOrder (mem_indices.mp inside)

end NpuPlugin.MixedRadix

namespace NpuPlugin.KeyedAxes

open MixedRadix List Function

structure Axis where
  key : Nat
  extent : Nat
deriving DecidableEq, Repr

/-! ### Walks -/

/-- The sums over axes with an extent and a step each, where the last axis varies fastest. -/
def walk : List (Nat × Nat) → List Nat
  | [] => [0]
  | (extent, step) :: rest =>
    (List.range extent).flatMap fun position => (walk rest).map (position * step + ·)

variable {extent step : Nat} {front rest others : List (Nat × Nat)}

theorem walk_eq (extents steps : List Nat) (length : steps.length = extents.length) :
    walk (extents.zip steps) = (indices extents).map (dot steps) := by
  induction extents generalizing steps with
  | nil =>
    rw [length_nil, length_eq_zero_iff] at length
    subst length
    rfl
  | cons extent extents ih =>
    obtain ⟨step, steps, rfl⟩ := exists_cons_of_length_eq_add_one length
    rw [zip_cons_cons, walk, indices, map_flatMap, ih steps (Nat.succ.inj length)]
    refine flatMap_congr fun position _ => ?_
    rw [map_map, map_map]
    rfl

theorem walk_append_congr (front : List (Nat × Nat)) (same : walk rest = walk others) :
    walk (front ++ rest) = walk (front ++ others) := by
  induction front with
  | nil => exact same
  | cons pair front ih => rw [cons_append, cons_append, walk, walk, ih]

theorem walk_one (step : Nat) (rest : List (Nat × Nat)) : walk ((1, step) :: rest) = walk rest := by
  simp [walk]

theorem walk_filter (pairs : List (Nat × Nat)) :
    walk (pairs.filter fun pair => pair.1 ≠ 1) = walk pairs := by
  induction pairs with
  | nil => rfl
  | cons pair rest ih =>
    obtain ⟨extent, step⟩ := pair
    rw [filter_cons]
    split
    · rw [walk, walk, ih]
    · rename_i single
      have one : extent = 1 := by simpa using single
      rw [ih, one, walk_one]

/-- Two axes of which the second is walked once for each step of the first are one axis. -/
theorem walk_merge (first second step : Nat) (rest : List (Nat × Nat)) :
    walk ((first, second * step) :: (second, step) :: rest) =
      walk ((first * second, step) :: rest) := by
  rw [walk, walk, walk, ← range_mul, flatMap_assoc]
  refine flatMap_congr fun row _ => ?_
  rw [map_flatMap, flatMap_map]
  refine flatMap_congr fun column _ => ?_
  rw [map_map]
  refine map_congr_left fun number _ => ?_
  simp only [comp_apply]
  ring

/-! ### Axes -/

/-- How many positions the axes with larger keys have. -/
def stepOf (axes : List Axis) (key : Nat) : Nat :=
  ((axes.filter fun axis => key < axis.key).map Axis.extent).prod

def stepsOf (all axes : List Axis) : List (Nat × Nat) :=
  axes.map fun axis => (axis.extent, stepOf all axis.key)

/-- Where each position of the walk is in the buffer. -/
def moved (axes : List Axis) : List Nat := walk (stepsOf axes axes)

variable {axes pre post : List Axis} {key : Nat}

theorem stepOf_cons (axis : Axis) (axes : List Axis) (key : Nat) :
    stepOf (axis :: axes) key = (if key < axis.key then axis.extent else 1) * stepOf axes key := by
  unfold stepOf
  rw [filter_cons]
  by_cases larger : key < axis.key
  · simp [larger]
  · simp [larger]

theorem stepOf_append (pre post : List Axis) (key : Nat) :
    stepOf (pre ++ post) key = stepOf pre key * stepOf post key := by
  simp [stepOf]

theorem stepOf_filter (axes : List Axis) (key : Nat) :
    stepOf (axes.filter fun axis => axis.extent ≠ 1) key = stepOf axes key := by
  induction axes with
  | nil => rfl
  | cons axis axes ih =>
    rw [filter_cons]
    split
    · rw [stepOf_cons, stepOf_cons, ih]
    · rename_i single
      have one : axis.extent = 1 := by simpa using single
      rw [ih, stepOf_cons, one, ite_self, one_mul]

/-- Axes with one position can be left out. -/
theorem moved_filter (axes : List Axis) :
    moved (axes.filter fun axis => axis.extent ≠ 1) = moved axes := by
  have filtered : stepsOf (axes.filter fun axis => axis.extent ≠ 1)
      (axes.filter fun axis => axis.extent ≠ 1) =
        (stepsOf axes axes).filter fun pair => pair.1 ≠ 1 := by
    unfold stepsOf
    rw [filter_map]
    refine map_congr_left fun axis _ => ?_
    rw [stepOf_filter]
  rw [moved, filtered, walk_filter, moved]

theorem moved_one (pre post : List Axis) (key : Nat) :
    moved (pre ++ ⟨key, 1⟩ :: post) = moved (pre ++ post) := by
  rw [← moved_filter (pre ++ ⟨key, 1⟩ :: post), ← moved_filter (pre ++ post)]
  simp

/-- Two keys between which there is no other one have the same axes behind them. -/
theorem stepOf_congr {first second : Nat} (ordered : first ≤ second)
    (apart : ∀ axis ∈ axes, ¬ (first ≤ axis.key ∧ axis.key ≤ second)) :
    stepOf axes first = stepOf axes second := by
  refine congrArg (fun axes => (axes.map Axis.extent).prod)
    (filter_congr fun axis mem => ?_)
  have := apart axis mem
  exact decide_eq_decide.mpr (by omega)

/-- Axes that follow each other in the walk and in the buffer are one axis. -/
theorem moved_merge {first second : Axis} (ordered : first.key < second.key)
    (apart : ∀ axis ∈ pre ++ post, ¬ (first.key ≤ axis.key ∧ axis.key ≤ second.key)) :
    moved (pre ++ first :: second :: post) =
      moved (pre ++ ⟨first.key, first.extent * second.extent⟩ :: post) := by
  have outside : ∀ axis ∈ pre ++ post,
      stepOf (pre ++ first :: second :: post) axis.key =
        stepOf (pre ++ ⟨first.key, first.extent * second.extent⟩ :: post) axis.key := by
    intro axis mem
    have here := apart axis mem
    simp only [stepOf_append, stepOf_cons]
    by_cases before : axis.key < first.key
    · rw [if_pos before, if_pos before, if_pos (before.trans ordered), mul_assoc]
    · rw [if_neg before, if_neg before, if_neg (by omega), one_mul]
  have atSecond : stepOf (pre ++ first :: second :: post) second.key =
      stepOf (pre ++ ⟨first.key, first.extent * second.extent⟩ :: post) first.key := by
    simp only [stepOf_append, stepOf_cons, lt_irrefl, if_false, one_mul, if_neg ordered.not_gt]
    rw [stepOf_congr ordered.le (forall_mem_append.mp apart).1,
      stepOf_congr ordered.le fun axis mem => apart axis (mem_append_right _ mem)]
  have atFirst : stepOf (pre ++ first :: second :: post) first.key =
      second.extent * stepOf (pre ++ first :: second :: post) second.key := by
    rw [atSecond]
    simp only [stepOf_append, stepOf_cons, lt_irrefl, if_false, one_mul, if_pos ordered]
    ring
  have same : ∀ part, (∀ axis ∈ part, axis ∈ pre ++ post) →
      stepsOf (pre ++ first :: second :: post) part =
        stepsOf (pre ++ ⟨first.key, first.extent * second.extent⟩ :: post) part :=
    fun part inside => map_congr_left fun axis mem => by rw [outside axis (inside axis mem)]
  unfold moved
  rw [stepsOf, map_append, map_cons, map_cons, ← stepsOf, ← stepsOf, atFirst,
    same pre fun axis mem => mem_append_left _ mem,
    same post fun axis mem => mem_append_right _ mem]
  conv_rhs => rw [stepsOf, map_append, map_cons, ← stepsOf, ← stepsOf]
  refine walk_append_congr _ ?_
  rw [walk_merge, atSecond]

/-- The keys matter only by their order. -/
theorem moved_rekey {rank : Nat → Nat}
    (ordered : ∀ first ∈ axes, ∀ second ∈ axes, rank first.key < rank second.key ↔
      first.key < second.key) :
    moved (axes.map fun axis => ⟨rank axis.key, axis.extent⟩) = moved axes := by
  have steps : ∀ axis ∈ axes,
      stepOf (axes.map fun axis => ⟨rank axis.key, axis.extent⟩) (rank axis.key) =
        stepOf axes axis.key := by
    intro axis mem
    unfold stepOf
    rw [filter_map, map_map]
    refine congrArg prod (congrArg (map _) (filter_congr fun other inside => ?_))
    exact decide_eq_decide.mpr (ordered axis mem other inside)
  unfold moved
  rw [stepsOf, map_map]
  refine congrArg walk (map_congr_left fun axis mem => ?_)
  rw [comp_apply, steps axis mem]

/-! ### Shapes and orders -/

/-- Where the buffer of a shape is read when its axes are walked in the given order. -/
def sources (shape order : List Nat) : List Nat :=
  (indices (gather order shape)).map fun idx => flatten shape (gather (positions order) idx)

/-- The axes of a shape in the given order. -/
def axesOf (shape order : List Nat) : List Axis := order.map fun axis => ⟨axis, shape.getD axis 0⟩

variable {shape order : List Nat}

theorem getD_strides (shape : List Nat) {axis : Nat} (inside : axis < shape.length) :
    (strides shape).getD axis 0 = (shape.drop (axis + 1)).prod := by
  induction shape generalizing axis with
  | nil => exact absurd inside (Nat.not_lt_zero _)
  | cons extent shape ih =>
    cases axis with
    | zero => rfl
    | succ axis => exact ih (Nat.lt_of_succ_lt_succ inside)

theorem filter_range_lt (axis count : Nat) :
    (List.range count).filter (fun other => axis < other) =
      (List.range (count - (axis + 1))).map (· + (axis + 1)) := by
  induction count with
  | zero => simp
  | succ count ih =>
    rw [range_succ, filter_append, ih]
    by_cases behind : axis < count
    · have counted : count + 1 - (axis + 1) = count - (axis + 1) + 1 := by omega
      rw [counted, range_succ, map_append]
      simp only [filter_cons, behind, decide_true, if_true, filter_nil, map_cons, map_nil]
      rw [Nat.sub_add_cancel behind]
    · have none : count + 1 - (axis + 1) = 0 := by omega
      have before : count - (axis + 1) = 0 := by omega
      simp [none, before, behind]

theorem stepOf_axesOf (isOrder : order.Perm (List.range shape.length)) {axis : Nat}
    (inside : axis < shape.length) :
    stepOf (axesOf shape order) axis = (strides shape).getD axis 0 := by
  have dropped : (range (shape.length - (axis + 1))).map
      (fun position => shape.getD (position + (axis + 1)) 0) = shape.drop (axis + 1) := by
    refine ext_getElem (by simp) fun position _ bound => ?_
    rw [length_drop] at bound
    have within : position + (axis + 1) < shape.length := by omega
    simp only [getElem_map, getElem_range, getElem_drop,
      getD_eq_getElem _ _ within]
    congr 1
    omega
  rw [getD_strides shape inside, ← dropped, stepOf, axesOf, filter_map, map_map]
  rw [((isOrder.filter _).map _).prod_eq]
  have filtered := filter_range_lt axis shape.length
  simp only [comp_def] at filtered ⊢
  rw [filtered, map_map]
  rfl

theorem sources_eq_moved (isOrder : order.Perm (List.range shape.length)) :
    sources shape order = moved (axesOf shape order) := by
  have length := order_length isOrder
  have isOwnOrder : order.Perm (range order.length) := length ▸ isOrder
  have steps : stepsOf (axesOf shape order) (axesOf shape order) =
      (gather order shape).zip (gather order (strides shape)) := by
    rw [stepsOf, axesOf, map_map, gather, gather, zip_map']
    refine map_congr_left fun axis mem => ?_
    exact congrArg (Prod.mk _) (stepOf_axesOf isOrder ((mem_order isOrder).mp mem))
  rw [moved, steps, walk_eq _ _ (by rw [length_gather, length_gather])]
  refine map_congr_left fun idx mem => ?_
  have indexLength : idx.length = order.length := by
    rw [(inside_iff_getD.mp (mem_indices.mp mem)).1, length_gather]
  have stridesLength : (strides shape).length = order.length := length_strides.trans length.symm
  conv_rhs => rw [← gather_gather_positions isOwnOrder indexLength]
  rw [dot_gather isOrder (length_gather.trans length)
    (length_gather.trans (length_positions.trans length)),
    gather_positions_gather isOwnOrder stridesLength]
  rfl

/-! ### Keys in their order -/

def ascending (keys : List Nat) : List Nat := keys.insertionSort (· ≤ ·)

/-- How many keys are smaller. -/
def rankOf (keys : List Nat) (key : Nat) : Nat := (ascending keys).idxOf key

variable {keys : List Nat}

theorem ascending_perm (keys : List Nat) : (ascending keys).Perm keys := perm_insertionSort _ keys

theorem sorted_ascending (distinct : keys.Nodup) : (ascending keys).Pairwise (· < ·) := by
  have sorted : (ascending keys).Pairwise (· ≤ ·) := pairwise_insertionSort _ keys
  exact sorted.imp₂ (fun _ _ before apart => lt_of_le_of_ne before apart)
    ((ascending_perm keys).nodup_iff.mpr distinct)

/-- There is one list of the keys in their order. -/
theorem eq_ascending {others : List Nat} (perm : others.Perm keys)
    (sorted : others.Pairwise (· < ·)) : others = ascending keys := by
  have distinct : keys.Nodup := perm.nodup_iff.mp (sorted.imp fun less => less.ne)
  exact (perm.trans (ascending_perm keys).symm).eq_of_pairwise
    (fun first second _ _ before after => absurd before after.not_gt) sorted
    (sorted_ascending distinct)

theorem getElem?_rankOf (mem : key ∈ keys) : (ascending keys)[rankOf keys key]? = some key := by
  have inside : rankOf keys key < (ascending keys).length :=
    idxOf_lt_length_iff.mpr ((ascending_perm keys).mem_iff.mpr mem)
  rw [getElem?_eq_getElem inside]
  exact congrArg some (getElem_idxOf _)

theorem rankOf_lt_iff (distinct : keys.Nodup) {first second : Nat} (firstMember : first ∈ keys)
    (secondMember : second ∈ keys) : rankOf keys first < rankOf keys second ↔ first < second := by
  have strictly := pairwise_iff_getElem.mp (sorted_ascending distinct)
  have ascends : ∀ {one other}, one ∈ keys → other ∈ keys → rankOf keys one < rankOf keys other →
      one < other := by
    intro one other oneMember otherMember less
    obtain ⟨oneInside, oneFound⟩ := List.getElem?_eq_some_iff.mp (getElem?_rankOf oneMember)
    obtain ⟨otherInside, otherFound⟩ := List.getElem?_eq_some_iff.mp (getElem?_rankOf otherMember)
    have sorted := strictly _ _ oneInside otherInside less
    rwa [oneFound, otherFound] at sorted
  refine ⟨ascends firstMember secondMember, fun less => ?_⟩
  rcases lt_trichotomy (rankOf keys first) (rankOf keys second) with before | same | after
  · exact before
  · have found := getElem?_rankOf firstMember
    rw [same, getElem?_rankOf secondMember] at found
    exact absurd (Option.some.inj found) less.ne'
  · exact absurd (ascends secondMember firstMember after) less.not_gt

theorem map_rankOf_perm (distinct : keys.Nodup) :
    (keys.map (rankOf keys)).Perm (List.range keys.length) := by
  have nodup : (ascending keys).Nodup := (ascending_perm keys).nodup_iff.mpr distinct
  refine ((ascending_perm keys).symm.map _).trans (List.Perm.of_eq ?_)
  refine ext_getElem ?_ fun place bound _ => ?_
  · rw [length_map, length_range, (ascending_perm keys).length_eq]
  · rw [getElem_map, getElem_range, rankOf, nodup.idxOf_getElem]

/-- Axes whose keys are replaced by their ranks are those of the shape that has the extents in the
order of the keys. -/
theorem moved_rankOf (distinct : keys.Nodup) (extent : Nat → Nat) :
    moved (axesOf ((ascending keys).map extent) (keys.map (rankOf keys))) =
      moved (keys.map fun key => ⟨key, extent key⟩) := by
  have ranked : axesOf ((ascending keys).map extent) (keys.map (rankOf keys)) =
      (keys.map fun key => (⟨key, extent key⟩ : Axis)).map fun axis =>
        ⟨rankOf keys axis.key, axis.extent⟩ := by
    rw [axesOf, map_map, map_map]
    refine map_congr_left fun key mem => ?_
    simp only [comp_apply, getD_eq_getElem?_getD, getElem?_map,
      getElem?_rankOf mem, Option.map_some, Option.getD_some]
  rw [ranked, moved_rekey]
  intro first firstMember second secondMember
  obtain ⟨firstKey, firstInside, rfl⟩ := mem_map.mp firstMember
  obtain ⟨secondKey, secondInside, rfl⟩ := mem_map.mp secondMember
  exact rankOf_lt_iff distinct firstInside secondInside

end NpuPlugin.KeyedAxes
