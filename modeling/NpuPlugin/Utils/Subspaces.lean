/-
This file models how the coordinates of a shape are stepped through: the coordinate of a number, one
step, several steps at once, and steps that leave one or two dimensions as they are. All carry from
the last dimension to the first, and what they leave is the coordinate of a sum.
-/

import Mathlib.Algebra.BigOperators.Ring.List
import NpuPlugin.Library.MixedRadix

namespace NpuPlugin.Subspace

open List MixedRadix Nat

/-! ### Coordinates -/

/-- The coordinate and what is left of the number of sections after the first dimension. -/
def getCoordRest : List Nat → Nat → List Nat × Nat
  | [], numSections => ([], numSections)
  | dimVal :: dims, numSections =>
    let (subspaceCoord, numSections) := getCoordRest dims numSections
    let nUpSubspace := numSections / dimVal
    ((numSections - nUpSubspace * dimVal) :: subspaceCoord, nUpSubspace)

def getCoord (dims : List Nat) (numSections : Nat) : List Nat := (getCoordRest dims numSections).1

def incrementNCoordRest : List Nat → List Nat → Nat → List Nat × Nat
  | coord :: coords, dim :: dims, inc =>
    let (rest, inc) := incrementNCoordRest coords dims inc
    let inc := inc + coord
    let coord := inc % dim
    (coord :: rest, (inc - coord) / dim)
  | coords, _, inc => (coords, inc)

def incrementNCoord (subspaceCoord dims : List Nat) (inc : Nat) : List Nat :=
  (incrementNCoordRest subspaceCoord dims inc).1

variable (skips : Nat → Bool)

/-- The loop of the increments by one, with whether it goes on in front of the dimensions. -/
def incrementRest (d : Nat) : List Nat → List Nat → List Nat × Bool
  | coord :: coords, dim :: dims =>
    let (rest, continues) := incrementRest (d + 1) coords dims
    if continues && !skips d then
      if coord < dim - 1 then ((coord + 1) :: rest, false) else (0 :: rest, true)
    else (coord :: rest, continues)
  | coords, _ => (coords, true)

def increment1Coord (dims subspaceCoord : List Nat) : List Nat :=
  (incrementRest (fun _ => false) 0 subspaceCoord dims).1

def incrementLine (dims : List Nat) (axis : Nat) (lineCoord : List Nat) : List Nat :=
  (incrementRest (fun d => d == axis) 0 lineCoord dims).1

def incrementPlane (dims : List Nat) (axis0 axis1 : Nat) (planeCoord : List Nat) : List Nat :=
  (incrementRest (fun d => d == axis0 || d == axis1) 0 planeCoord dims).1

/-- What is left of a shape or a coordinate without the dimensions that are skipped. -/
def reduced (d : Nat) : List Nat → List Nat
  | [] => []
  | value :: rest => if skips d then reduced (d + 1) rest else value :: reduced (d + 1) rest

/-! ### Carrying -/

variable {dims coords rest : List Nat} {number other carry up digit dim : Nat}

/-- A coordinate and what is carried out of the first dimension make the number. -/
structure Carries (dims : List Nat) (number : Nat) (coord : List Nat) (carry : Nat) : Prop where
  inside : Inside dims coord
  total : flatten dims coord + dims.prod * carry = number

theorem Carries.cons (carries : Carries dims number rest carry) (add : Nat) (less : digit < dim)
    (same : digit + dim * up = add + carry) :
    Carries (dim :: dims) (add * dims.prod + number) (digit :: rest) up := by
  refine ⟨⟨less, carries.inside⟩, ?_⟩
  calc digit * dims.prod + flatten dims rest + (dim :: dims).prod * up
      = dims.prod * (digit + dim * up) + flatten dims rest := by rw [prod_cons]; ring
    _ = add * dims.prod + number := by rw [same, ← carries.total]; ring

theorem Carries.step {coord inc : Nat}
    (carries : Carries dims (flatten dims coords + inc) rest carry) (less : digit < dim)
    (same : digit + dim * up = coord + carry) :
    Carries (dim :: dims) (flatten (dim :: dims) (coord :: coords) + inc) (digit :: rest) up := by
  change Carries _ (coord * dims.prod + flatten dims coords + inc) _ _
  rw [Nat.add_assoc]
  exact carries.cons coord less same

theorem Carries.flatten_eq (carries : Carries dims number coords carry) :
    flatten dims coords = number % dims.prod := by
  rw [← carries.total, Nat.add_mul_mod_self_left, Nat.mod_eq_of_lt (flatten_lt carries.inside)]

theorem Carries.unique {others : List Nat} (one : Carries dims number coords carry)
    (two : Carries dims other others up) (same : number % dims.prod = other % dims.prod) :
    coords = others :=
  flatten_injective one.inside two.inside (by rw [one.flatten_eq, two.flatten_eq, same])

theorem carries_nil (number : Nat) : Carries [] number [] number :=
  ⟨trivial, (Nat.zero_add _).trans (Nat.one_mul number)⟩

section

variable (positive : ∀ dim ∈ dims, 0 < dim)
include positive

theorem carries_getCoordRest (number : Nat) :
    Carries dims number (getCoordRest dims number).1 (getCoordRest dims number).2 := by
  induction dims with
  | nil => exact carries_nil number
  | cons dim dims ih =>
    have tail := ih (forall_mem_cons.mp positive).2
    have step := tail.cons 0 (Nat.mod_lt _ (positive dim mem_cons_self))
      ((Nat.mod_add_div (getCoordRest dims number).2 dim).trans (Nat.zero_add _).symm)
    rw [Nat.zero_mul, Nat.zero_add, Nat.mod_eq_sub_div_mul] at step
    exact step

theorem carries_incrementNCoordRest (inside : Inside dims coords) (inc : Nat) :
    Carries dims (flatten dims coords + inc) (incrementNCoordRest coords dims inc).1
      (incrementNCoordRest coords dims inc).2 := by
  induction dims generalizing coords with
  | nil =>
    obtain rfl : coords = [] := by cases coords <;> trivial
    exact (Nat.zero_add inc).symm ▸ carries_nil inc
  | cons dim dims ih =>
    cases coords with
    | nil => cases inside
    | cons coord coords =>
      have tail := ih (forall_mem_cons.mp positive).2 inside.2
      have step := tail.step (Nat.mod_lt _ (positive dim mem_cons_self))
        ((Nat.mod_add_div _ dim).trans (Nat.add_comm _ coord))
      rw [Nat.div_eq_sub_mod_div] at step
      exact step

omit positive in
/-- One is added to what is not skipped. -/
theorem carries_incrementRest (d : Nat) (inside : Inside dims coords) :
    Inside dims (incrementRest skips d coords dims).1 ∧
      reduced (fun d => !skips d) d (incrementRest skips d coords dims).1 =
        reduced (fun d => !skips d) d coords ∧
      Carries (reduced skips d dims)
        (flatten (reduced skips d dims) (reduced skips d coords) + 1)
        (reduced skips d (incrementRest skips d coords dims).1)
        (incrementRest skips d coords dims).2.toNat := by
  induction dims generalizing coords d with
  | nil =>
    obtain rfl : coords = [] := by cases coords <;> trivial
    exact ⟨trivial, rfl, carries_nil 1⟩
  | cons dim dims ih =>
    cases coords with
    | nil => cases inside
    | cons coord coords =>
      obtain ⟨insideRest, same, tail⟩ := ih (d + 1) inside.2
      unfold incrementRest
      dsimp only
      cases skip : skips d with
      | true => simpa [reduced, skip, Inside, insideRest, inside.1] using ⟨same, tail⟩
      | false =>
        have head := inside.1
        cases continues : (incrementRest skips (d + 1) coords dims).2 with
        | false =>
          rw [continues] at tail
          have step := tail.step head (show coord + dim * 0 = coord + false.toNat from rfl)
          simpa [reduced, skip, Inside, head, insideRest, same] using step
        | true =>
          rw [continues] at tail
          by_cases less : coord < dim - 1
          · have inner : coord + 1 < dim := by omega
            have step := tail.step inner (show coord + 1 + dim * 0 = coord + true.toNat from rfl)
            simpa [reduced, skip, less, Inside, inner, insideRest, same] using step
          · have inner : 0 < dim := by omega
            have step := tail.step inner (show 0 + dim * 1 = coord + true.toNat by
              rw [Bool.toNat_true]; omega)
            simpa [reduced, skip, less, Inside, inner, insideRest, same] using step

end

/-! ### Stepping through a shape -/

theorem mem_of_mem_reduced {value d : Nat} {values : List Nat}
    (mem : value ∈ reduced skips d values) : value ∈ values := by
  induction values generalizing d with
  | nil => cases mem
  | cons first rest ih =>
    unfold reduced at mem
    split at mem
    · exact mem_cons_of_mem _ (ih mem)
    · exact (mem_cons.mp mem).elim (· ▸ mem_cons_self) fun later => mem_cons_of_mem _ (ih later)

theorem reduced_none (d : Nat) (values : List Nat) :
    reduced (fun _ => false) d values = values := by
  induction values generalizing d with
  | nil => rfl
  | cons value rest ih => exact congrArg (value :: ·) (ih (d + 1))

/-- The dimensions that are not skipped are stepped through in order, around the end, and the other
ones stay as they are. From zero each coordinate is visited once. -/
structure StepsThrough (increment : List Nat → List Nat) (dims : List Nat) : Prop where
  advances : ∀ coord number count, Inside dims coord →
    reduced skips 0 coord = getCoord (reduced skips 0 dims) number →
      reduced skips 0 (increment^[count] coord) =
        getCoord (reduced skips 0 dims) ((number + count) % (reduced skips 0 dims).prod)
  keeps : ∀ coord count, Inside dims coord →
    reduced (fun d => !skips d) 0 (increment^[count] coord) = reduced (fun d => !skips d) 0 coord
  visits : ∀ target, Inside (reduced skips 0 dims) target →
    ∃! count, count < (reduced skips 0 dims).prod ∧
      reduced skips 0 (increment^[count] (List.replicate dims.length 0)) = target

theorem inside_reduced (d : Nat) (inside : Inside dims coords) :
    Inside (reduced skips d dims) (reduced skips d coords) := by
  induction dims generalizing coords d with
  | nil =>
    obtain rfl : coords = [] := by cases coords <;> trivial
    exact trivial
  | cons dim dims ih =>
    cases coords with
    | nil => cases inside
    | cons coord coords =>
      unfold reduced
      split
      · exact ih (d + 1) inside.2
      · exact ⟨inside.1, ih (d + 1) inside.2⟩

/-- One step of the loop. -/
def step (dims coord : List Nat) : List Nat := (incrementRest skips 0 coord dims).1

theorem iterate_step (inside : Inside dims coords) (count : Nat) :
    Inside dims ((step skips dims)^[count] coords) ∧
      Inside (reduced skips 0 dims) (reduced skips 0 ((step skips dims)^[count] coords)) ∧
      reduced (fun d => !skips d) 0 ((step skips dims)^[count] coords) =
        reduced (fun d => !skips d) 0 coords ∧
      flatten (reduced skips 0 dims) (reduced skips 0 ((step skips dims)^[count] coords)) =
        (flatten (reduced skips 0 dims) (reduced skips 0 coords) + count) %
          (reduced skips 0 dims).prod := by
  induction count with
  | zero =>
    have insideReduced := inside_reduced skips 0 inside
    exact ⟨inside, insideReduced, rfl, (Nat.mod_eq_of_lt (flatten_lt insideReduced)).symm⟩
  | succ count ih =>
    obtain ⟨insideBefore, _, same, numbered⟩ := ih
    obtain ⟨insideAfter, sameAfter, carries⟩ := carries_incrementRest skips 0 insideBefore
    rw [Function.iterate_succ_apply']
    refine ⟨insideAfter, carries.inside, sameAfter.trans same, ?_⟩
    refine carries.flatten_eq.trans ?_
    rw [numbered, Nat.mod_add_mod, Nat.add_assoc]

theorem stepsThrough (positive : ∀ dim ∈ dims, 0 < dim) :
    StepsThrough skips (step skips dims) dims := by
  have coordinate (number : Nat) : Carries (reduced skips 0 dims) number _ _ :=
    carries_getCoordRest (fun dim mem => positive dim (mem_of_mem_reduced skips mem)) number
  have nonempty : dims.prod ≠ 0 := prod_ne_zero fun zero => (positive 0 zero).false
  refine ⟨fun coord number count inside same => ?_, fun coord count inside =>
    (iterate_step skips inside count).2.2.1, fun target inside => ?_⟩
  · obtain ⟨_, insideAfter, _, numbered⟩ := iterate_step skips inside count
    refine flatten_injective insideAfter (coordinate _).inside ?_
    rw [numbered, same]
    refine .trans ?_ (coordinate _).flatten_eq.symm
    rw [Nat.mod_mod, ← Nat.mod_add_mod number]
    exact congrArg (fun front => (front + count) % _) (coordinate number).flatten_eq
  · have zeros : flatten (reduced skips 0 dims)
        (reduced skips 0 (List.replicate dims.length 0)) = 0 := by
      rw [eq_replicate_of_mem fun value mem => eq_of_mem_replicate (mem_of_mem_reduced skips mem)]
      exact dot_zeros _ _
    have visited (count : Nat) := iterate_step skips (inside_zeros nonempty) count
    rw [zeros] at visited
    simp only [Nat.zero_add] at visited
    refine ⟨flatten (reduced skips 0 dims) target, ⟨flatten_lt inside, ?_⟩, fun count found => ?_⟩
    · refine flatten_injective (visited _).2.1 inside ((visited _).2.2.2.trans ?_)
      exact Nat.mod_eq_of_lt (flatten_lt inside)
    · rw [← found.2]
      exact ((visited count).2.2.2.trans (Nat.mod_eq_of_lt found.1)).symm

/-- Several steps at once add their number, as as many single steps do, and each loop steps through
the dimensions that it does not skip. -/
theorem increments_step_through (dims : List Nat) (positive : ∀ dim ∈ dims, 0 < dim) :
    (∀ number inc, incrementNCoord (getCoord dims number) dims inc =
        getCoord dims ((number + inc) % dims.prod) ∧
      incrementNCoord (getCoord dims number) dims inc =
        (increment1Coord dims)^[inc] (getCoord dims number)) ∧
    StepsThrough (fun _ => false) (increment1Coord dims) dims ∧
    (∀ axis, StepsThrough (fun d => d == axis) (incrementLine dims axis) dims) ∧
    ∀ axis0 axis1, StepsThrough (fun d => d == axis0 || d == axis1)
      (incrementPlane dims axis0 axis1) dims := by
  have single := stepsThrough (fun _ => false) positive
  refine ⟨fun number inc => ?_, single, fun axis => stepsThrough _ positive,
    fun axis0 axis1 => stepsThrough _ positive⟩
  have coordinate (number : Nat) := carries_getCoordRest positive number
  have several : incrementNCoord (getCoord dims number) dims inc =
      getCoord dims ((number + inc) % dims.prod) := by
    refine (carries_incrementNCoordRest positive (coordinate number).inside inc).unique
      (coordinate _) ?_
    rw [(coordinate number).flatten_eq, Nat.mod_mod, Nat.mod_add_mod]
  have advanced := single.advances (getCoord dims number) number inc (coordinate number).inside
  simp only [reduced_none] at advanced
  exact ⟨several, several.trans (advanced trivial).symm⟩

theorem increments_step_through_six :
    incrementNCoord (getCoord [2, 3] 4) [2, 3] 7 = getCoord [2, 3] ((4 + 7) % 6) :=
  ((increments_step_through [2, 3] (by decide)).1 4 7).1

end NpuPlugin.Subspace
