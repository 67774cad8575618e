/-
This file models how the dimensions of a shape are associated with those of another shape with as
many elements, and proves that a map that is found is a valid association. Only a map of both whole
shapes is returned.
-/

import Mathlib.Algebra.BigOperators.Group.List.Basic
import Mathlib.Algebra.Order.BigOperators.GroupWithZero.List
import Mathlib.Tactic.Ring

namespace NpuPlugin.ReshapeUtils

open Function List Nat Option

/-! ### The source -/

/-- The indices into both shapes, and the outputs of each input dimension so far. -/
structure State where
  inIdx : Nat
  outIdx : Nat
  reassociationVec : Nat → List Nat

/-- `reassociationVec[inIdx].push_back(outIdx)`. -/
def pushBack (reassociationVec : Nat → List Nat) (inIdx outIdx : Nat) : Nat → List Nat :=
  Function.update reassociationVec inIdx (reassociationVec inIdx ++ [outIdx])

variable (inShape outShape : List Nat) (state : State)

def State.push : State :=
  { state with reassociationVec := pushBack state.reassociationVec state.inIdx state.outIdx }

def consecutiveOnes (shape : List Nat) (start : Nat) : Nat :=
  ((shape.drop start).takeWhile (· == 1)).length

/-- A turn of the loop over dimensions of one in both shapes. -/
def pairOnes : State := { state.push with inIdx := state.inIdx + 1, outIdx := state.outIdx + 1 }

def pushInOne : State where
  inIdx := state.inIdx + 1
  outIdx := state.outIdx
  reassociationVec := pushBack state.reassociationVec state.inIdx (state.outIdx - 1)

def pushOutOne : State where
  inIdx := state.inIdx
  outIdx := state.outIdx + 1
  reassociationVec := pushBack state.reassociationVec (state.inIdx - 1) state.outIdx

def handleConsecutiveOnes : State :=
  let ins := consecutiveOnes inShape state.inIdx
  let outs := consecutiveOnes outShape state.outIdx
  pushOutOne^[outs - min ins outs] (pushInOne^[ins - min ins outs] (pairOnes^[min ins outs] state))

def nextDimIsOne (shape : List Nat) (index : Nat) : Bool := shape[index + 1]? == some 1

def remainDimAreOnes (shape : List Nat) (index : Nat) : Bool :=
  index < shape.length && (shape.drop index).all (· == 1)

/-- `minimum.shape`. -/
def minShape : Bool → List Nat
  | true => inShape
  | false => outShape

/-- `minimum.shapeIdx`. -/
def State.minIdx : Bool → Nat
  | true => state.inIdx
  | false => state.outIdx

/-- `++minimum.shapeIdx`. -/
def State.advance : Bool → State
  | true => { state with inIdx := state.inIdx + 1 }
  | false => { state with outIdx := state.outIdx + 1 }

/-- Whether the inner loop ends when nothing is left of the large dimension. -/
def exitsLoop (isExtension isInputSmallerDim : Bool) (state : State) : Bool :=
  let shape := minShape inShape outShape isInputSmallerDim
  let shapeIdx := state.minIdx isInputSmallerDim
  if isExtension then !(nextDimIsOne shape shapeIdx && shapeIdx + 1 == shape.length - 1)
  else
    !nextDimIsOne shape shapeIdx ||
      (nextDimIsOne inShape state.inIdx && nextDimIsOne outShape state.outIdx)

/-- The inner loop, with as many dimensions left of the shape with the smaller dimension. -/
def mapDims (inShape outShape : List Nat) (isExtension isInputSmallerDim : Bool) :
    Nat → Nat → State → Option State
  | 0, _, state => some state
  | left + 1, largeDimQuotient, state =>
    let dim := (minShape inShape outShape isInputSmallerDim).getD (state.minIdx isInputSmallerDim) 0
    if largeDimQuotient % dim ≠ 0 then none
    else if largeDimQuotient / dim = 1 ∧
        exitsLoop inShape outShape isExtension isInputSmallerDim state then
      some state.push
    else
      mapDims inShape outShape isExtension isInputSmallerDim left (largeDimQuotient / dim)
        (state.push.advance isInputSmallerDim)

/-- The dimensions of one at the beginning of a turn. In extension mode they are only paired. -/
def handleOnes (isExtension : Bool) (state : State) : State :=
  if inShape[state.inIdx]? = some 1 ∧ outShape[state.outIdx]? = some 1 then
    if isExtension then
      pairOnes^[min (consecutiveOnes inShape state.inIdx) (consecutiveOnes outShape state.outIdx)]
        state
    else handleConsecutiveOnes inShape outShape state
  else state

/-- The outer loop. Each turn goes on in the input, so that it ends within as many turns as there
are input dimensions. -/
def mapShapes (inShape outShape : List Nat) (isExtension : Bool) : Nat → State → Option State
  | 0, state => some state
  | turns + 1, state =>
    if state.inIdx < inShape.length ∧ state.outIdx < outShape.length then
      let paired := handleOnes inShape outShape isExtension state
      if paired.inIdx ≥ inShape.length ∨ paired.outIdx ≥ outShape.length then some paired
      else do
        let inDim := inShape.getD paired.inIdx 0
        let outDim := outShape.getD paired.outIdx 0
        let isInputSmallerDim :=
          decide (inDim < outDim) || (inDim == outDim && nextDimIsOne inShape paired.inIdx)
        let mapped ← mapDims inShape outShape isExtension isInputSmallerDim
          ((minShape inShape outShape isInputSmallerDim).length - paired.minIdx isInputSmallerDim)
          (if isInputSmallerDim then outDim else inDim) paired
        mapShapes inShape outShape isExtension turns
          { mapped with inIdx := mapped.inIdx + 1, outIdx := mapped.outIdx + 1 }
    else some state

def createReassociationMap (isExtension : Bool) : Option (List (List Nat)) := do
  let inSize := inShape.length
  let outSize := outShape.length
  let state ← mapShapes inShape outShape isExtension inSize ⟨0, 0, fun _ => []⟩
  if inSize = 0 then none
  else if state.inIdx = inSize ∧ remainDimAreOnes outShape state.outIdx then
    let remaining := (List.range' state.outIdx (outSize - state.outIdx)).foldl
      (fun vec outIdxGap => pushBack vec (inSize - 1) outIdxGap) state.reassociationVec
    some ((List.range inSize).map remaining)
  else if state.inIdx < inSize ∨ state.outIdx < outSize then none
  else some ((List.range inSize).map state.reassociationVec)

def getReassociationMap : Option (List (List Nat)) := createReassociationMap inShape outShape false

def getReassociationMapExtension : Option (List (List Nat)) :=
  createReassociationMap inShape outShape true

example : getReassociationMapExtension [1, 512, 1, 1500] [1, 1, 512, 1500] =
    some [[0], [1, 2], [3], [3]] := by decide

/-! ### Associations -/

/-- The first input dimensions are mapped to runs that cover the first output dimensions. A run
begins behind the outputs that are covered, where the extents before have equal products, or at
the last of them. -/
inductive Associates (inShape outShape : List Nat) (vec : Nat → List Nat) : Nat → Nat → Prop
  | nil : Associates inShape outShape vec 0 0
  | next {inIdx covered first more : Nat} : Associates inShape outShape vec inIdx covered →
      (first = covered ∧ (inShape.take inIdx).prod = (outShape.take covered).prod ∨
        first + 1 = covered) →
      vec inIdx = range' first (more + 1) →
      Associates inShape outShape vec (inIdx + 1) (first + more + 1)

section

variable {inShape outShape : List Nat} {vec vec' : Nat → List Nat} {inIdx outIdx : Nat}

section

variable (associates : Associates inShape outShape vec inIdx outIdx)
include associates

theorem Associates.congr (same : ∀ index < inIdx, vec' index = vec index) :
    Associates inShape outShape vec' inIdx outIdx := by
  induction associates with
  | nil => exact .nil
  | next _ begins run ih =>
    exact .next (ih fun index before => same index (before.trans
      (lt_succ_self _))) begins ((same _ (lt_succ_self _)).trans run)

theorem Associates.run {index : Nat} (inside : index < inIdx) :
    ∃ first more, vec index = range' first (more + 1) ∧ first + more < outIdx := by
  induction associates with
  | nil => cases inside
  | @next _ covered first more _ begins run ih =>
    rcases Nat.lt_succ_iff_lt_or_eq.mp inside with before | rfl
    · obtain ⟨other, others, found, below⟩ := ih before
      exact ⟨other, others, found, by omega⟩
    · exact ⟨first, more, run, Nat.lt_succ_self _⟩

variable {index out : Nat}

theorem Associates.lt_of_mem (inside : index < inIdx) (mem : out ∈ vec index) : out < outIdx := by
  obtain ⟨first, more, run, below⟩ := associates.run inside
  rw [run, mem_range'_1] at mem
  omega

theorem Associates.covers (inside : out < outIdx) : ∃ index < inIdx, out ∈ vec index := by
  induction associates with
  | nil => cases inside
  | @next last covered first more _ begins run ih =>
    by_cases before : out < covered
    · obtain ⟨index, below, mem⟩ := ih before
      exact ⟨index, below.trans (lt_succ_self _), mem⟩
    · exact ⟨last, lt_succ_self _, by rw [run, mem_range'_1]; omega⟩

theorem Associates.ordered {later other : Nat} (before : index < later) (inside : later < inIdx)
    (mem : out ∈ vec index) (otherMember : other ∈ vec later) : out ≤ other := by
  induction associates with
  | nil => cases inside
  | next earlier begins run ih =>
    rcases Nat.lt_succ_iff_lt_or_eq.mp inside with within | rfl
    · exact ih within
    · have below := earlier.lt_of_mem before mem
      rw [run, mem_range'_1] at otherMember
      omega

/-- Where no input dimension before shares an output with the next one, the products agree. -/
theorem Associates.equal_of_apart (inside : index < inIdx)
    (before : ∀ earlier < index, ∀ other ∈ vec earlier, other < out)
    (behind : ∀ other ∈ vec index, out ≤ other) :
    (inShape.take index).prod = (outShape.take out).prod := by
  induction associates with
  | nil => cases inside
  | @next _ covered first more earlier begins run ih =>
    rcases Nat.lt_succ_iff_lt_or_eq.mp inside with within | rfl
    · exact ih within
    · have upper : out ≤ first := behind first (by rw [run, mem_range'_1]; omega)
      have lower : covered ≤ out := by
        by_contra less
        obtain ⟨found, below, mem⟩ := earlier.covers (not_le.mp less)
        exact absurd (before found below out mem) (lt_irrefl out)
      rcases begins with ⟨rfl, equal⟩ | shared
      · rw [equal, le_antisymm lower upper]
      · omega

end

theorem pushBack_self (vec : Nat → List Nat) (inIdx outIdx : Nat) :
    pushBack vec inIdx outIdx inIdx = vec inIdx ++ [outIdx] := update_self ..

theorem pushBack_ne (vec : Nat → List Nat) (inIdx outIdx : Nat) {index : Nat}
    (other : index ≠ inIdx) : pushBack vec inIdx outIdx index = vec index :=
  update_of_ne other ..

theorem Associates.extend (associates : Associates inShape outShape vec inIdx outIdx)
    (positive : 0 < inIdx) :
    Associates inShape outShape (pushBack vec (inIdx - 1) outIdx) inIdx (outIdx + 1) := by
  cases associates with
  | nil => cases positive
  | @next last covered first more before begins run =>
    have extended : pushBack vec last (first + more + 1) last = range' first (more + 1 + 1) := by
      rw [pushBack_self, run]
      exact range'_1_concat.symm
    have after := Associates.next (before.congr fun index below =>
      pushBack_ne vec last (first + more + 1) below.ne) begins extended
    exact after

theorem Associates.push {covered : Nat} (associates : Associates inShape outShape vec inIdx covered)
    (begins : outIdx = covered ∧ (inShape.take inIdx).prod = (outShape.take covered).prod ∨
      outIdx + 1 = covered) (empty : vec inIdx = []) :
    Associates inShape outShape (pushBack vec inIdx outIdx) (inIdx + 1) (outIdx + 1) := by
  have run : pushBack vec inIdx outIdx inIdx = range' outIdx (0 + 1) := by
    rw [pushBack_self, empty]
    rfl
  exact .next (associates.congr fun _ before => pushBack_ne _ _ _ before.ne) begins run

/-! ### Dimensions of one -/

/-- The dimensions before both indices are associated, with equal products. -/
structure Whole (inShape outShape : List Nat) (state : State) : Prop where
  inInside : state.inIdx ≤ inShape.length
  outInside : state.outIdx ≤ outShape.length
  associates : Associates inShape outShape state.reassociationVec state.inIdx state.outIdx
  equal : (inShape.take state.inIdx).prod = (outShape.take state.outIdx).prod
  empty : ∀ index ≥ state.inIdx, state.reassociationVec index = []

variable {shape : List Nat} {start : Nat}

theorem prod_take_one {index : Nat} (one : shape[index]? = some 1) :
    (shape.take (index + 1)).prod = (shape.take index).prod := by
  rw [take_add_one, one, prod_append]
  exact mul_one _

variable {state : State}

section

variable (whole : Whole inShape outShape state)
include whole

theorem Whole.pairOnes (inOne : inShape[state.inIdx]? = some 1)
    (outOne : outShape[state.outIdx]? = some 1) : Whole inShape outShape (pairOnes state) where
  inInside := (List.getElem?_eq_some_iff.mp inOne).1
  outInside := (List.getElem?_eq_some_iff.mp outOne).1
  associates := whole.associates.push (.inl ⟨rfl, whole.equal⟩) (whole.empty _ le_rfl)
  equal := (prod_take_one inOne).trans (whole.equal.trans (prod_take_one outOne).symm)
  empty index behind := (pushBack_ne _ _ _ (ne_of_gt behind)).trans
    (whole.empty index (le_of_succ_le behind))

theorem Whole.pushInOne (inOne : inShape[state.inIdx]? = some 1) (positive : 0 < state.outIdx) :
    Whole inShape outShape (pushInOne state) where
  inInside := (List.getElem?_eq_some_iff.mp inOne).1
  outInside := whole.outInside
  associates := by
    have pushed := whole.associates.push (.inr (Nat.sub_add_cancel positive))
      (whole.empty _ le_rfl)
    rwa [Nat.sub_add_cancel positive] at pushed
  equal := (prod_take_one inOne).trans whole.equal
  empty index behind := (pushBack_ne _ _ _ (ne_of_gt behind)).trans
    (whole.empty index (le_of_succ_le behind))

theorem Whole.pushOutOne (outOne : outShape[state.outIdx]? = some 1) (positive : 0 < state.inIdx) :
    Whole inShape outShape (pushOutOne state) where
  inInside := whole.inInside
  outInside := (List.getElem?_eq_some_iff.mp outOne).1
  associates := whole.associates.extend positive
  equal := whole.equal.trans (prod_take_one outOne).symm
  empty index behind := (pushBack_ne _ _ _ (ne_of_gt
    ((sub_lt positive one_pos).trans_le behind))).trans (whole.empty index behind)

end

theorem Whole.iterate {start : State} (whole : Whole inShape outShape start) (turn : State → State)
    (inStep outStep count : Nat) (moves : ∀ state, (turn state).inIdx = state.inIdx + inStep ∧
      (turn state).outIdx = state.outIdx + outStep)
    (keeps : ∀ done < count, ∀ state, state.inIdx = start.inIdx + done * inStep →
      state.outIdx = start.outIdx + done * outStep → Whole inShape outShape state →
        Whole inShape outShape (turn state)) :
    Whole inShape outShape (turn^[count] start) ∧
      (turn^[count] start).inIdx = start.inIdx + count * inStep ∧
      (turn^[count] start).outIdx = start.outIdx + count * outStep := by
  induction count with
  | zero => exact ⟨whole, by simp, by simp⟩
  | succ count ih =>
    obtain ⟨kept, ins, outs⟩ := ih fun done before => keeps done (before.trans (lt_succ_self count))
    rw [iterate_succ_apply', (moves _).1, (moves _).2, ins, outs]
    exact ⟨keeps count (lt_succ_self count) _ ins outs kept, by ring, by ring⟩

theorem getElem?_of_lt_consecutiveOnes {done : Nat} (inside : done < consecutiveOnes shape start) :
    shape[start + done]? = some 1 := by
  rw [← getElem?_drop]
  unfold consecutiveOnes at inside
  generalize shape.drop start = rest at inside
  obtain ⟨behind, split⟩ : rest.takeWhile (· == 1) <+: rest := List.takeWhile_prefix _
  rw [← split, getElem?_append_left inside, getElem?_eq_getElem inside]
  have isOne := all_eq_true.mp all_takeWhile _ (getElem_mem inside)
  exact congrArg some (eq_of_beq isOne)

theorem consecutiveOnes_pos (one : shape[start]? = some 1) : 0 < consecutiveOnes shape start := by
  obtain ⟨inside, isOne⟩ := List.getElem?_eq_some_iff.mp one
  unfold consecutiveOnes
  rw [drop_eq_getElem_cons inside, isOne]
  exact Nat.succ_pos _

theorem Whole.handleOnes (whole : Whole inShape outShape state) (isExtension : Bool) :
    Whole inShape outShape (handleOnes inShape outShape isExtension state) := by
  unfold ReshapeUtils.handleOnes
  split
  · next ones =>
    have positive := Nat.lt_min.mpr ⟨consecutiveOnes_pos ones.1, consecutiveOnes_pos ones.2⟩
    obtain ⟨paired, pairedIn, pairedOut⟩ := whole.iterate ReshapeUtils.pairOnes 1 1
      (min (consecutiveOnes inShape state.inIdx) (consecutiveOnes outShape state.outIdx))
      (fun state => ⟨rfl, rfl⟩) fun done before other ins outs kept => kept.pairOnes
        (by rw [ins]; exact getElem?_of_lt_consecutiveOnes (by omega))
        (by rw [outs]; exact getElem?_of_lt_consecutiveOnes (by omega))
    split
    · exact paired
    · obtain ⟨wide, wideIn, wideOut⟩ := paired.iterate ReshapeUtils.pushInOne 1 0
        (consecutiveOnes inShape state.inIdx -
          min (consecutiveOnes inShape state.inIdx) (consecutiveOnes outShape state.outIdx))
        (fun state => ⟨rfl, rfl⟩) fun done before other ins outs kept => kept.pushInOne
          (by rw [ins, pairedIn, add_assoc]; exact getElem?_of_lt_consecutiveOnes (by omega))
          (by omega)
      exact (wide.iterate ReshapeUtils.pushOutOne 0 1 _ (fun state => ⟨rfl, rfl⟩)
        fun done before other ins outs kept => kept.pushOutOne
          (by
            rw [outs, wideOut, pairedOut, mul_zero, add_zero, add_assoc]
            exact getElem?_of_lt_consecutiveOnes (by omega))
          (by omega)).1
  · exact whole

/-! ### The loops -/

/-- The indices stand where the dimensions before them are associated, or one of them is beyond
its shape, which is associated with the other up to its index. -/
inductive Closed (inShape outShape : List Nat) (state : State) : Prop
  | whole (whole : Whole inShape outShape state)
  | beyondIn (beyond : state.inIdx = inShape.length + 1) (inside : state.outIdx ≤ outShape.length)
      (associates : Associates inShape outShape state.reassociationVec inShape.length state.outIdx)
  | beyondOut (beyond : state.outIdx = outShape.length + 1) (inside : state.inIdx ≤ inShape.length)
      (associates : Associates inShape outShape state.reassociationVec state.inIdx outShape.length)

def State.next (state : State) : State :=
  { state with inIdx := state.inIdx + 1, outIdx := state.outIdx + 1 }

/-- The inner loop is about to push an output to the outputs of an input. -/
structure Mapping (inShape outShape : List Nat) (isInputSmallerDim : Bool) (left quotient : Nat)
    (state : State) : Prop where
  ready : Associates inShape outShape state.push.reassociationVec (state.inIdx + 1)
    (state.outIdx + 1)
  empty : ∀ index > state.inIdx, state.reassociationVec index = []
  inInside : state.inIdx < inShape.length
  outInside : state.outIdx < outShape.length
  left_eq : left =
    (minShape inShape outShape isInputSmallerDim).length - state.minIdx isInputSmallerDim
  equal : ((minShape inShape outShape isInputSmallerDim).take
      (state.minIdx isInputSmallerDim)).prod * quotient =
    ((minShape outShape inShape isInputSmallerDim).take
      (state.minIdx (!isInputSmallerDim) + 1)).prod

theorem Whole.mapping (whole : Whole inShape outShape state)
    (inInside : state.inIdx < inShape.length) (outInside : state.outIdx < outShape.length)
    (isInputSmallerDim : Bool) :
    Mapping inShape outShape isInputSmallerDim
      ((minShape inShape outShape isInputSmallerDim).length - state.minIdx isInputSmallerDim)
      (if isInputSmallerDim then outShape.getD state.outIdx 0 else inShape.getD state.inIdx 0)
      state := by
  refine ⟨whole.associates.push (.inl ⟨rfl, whole.equal⟩) (whole.empty _ le_rfl),
    fun index behind => whole.empty index behind.le, inInside, outInside, rfl, ?_⟩
  cases isInputSmallerDim with
  | true =>
    show (inShape.take state.inIdx).prod * outShape.getD state.outIdx 0 = _
    rw [whole.equal, getD_eq_getElem?_getD, getElem?_eq_getElem outInside]
    exact (prod_take_succ _ _ outInside).symm
  | false =>
    show (outShape.take state.outIdx).prod * inShape.getD state.inIdx 0 = _
    rw [← whole.equal, getD_eq_getElem?_getD, getElem?_eq_getElem inInside]
    exact (prod_take_succ _ _ inInside).symm

variable {isInputSmallerDim : Bool}

theorem Mapping.pos {left quotient : Nat}
    (mapping : Mapping inShape outShape isInputSmallerDim left quotient state) : 0 < left := by
  rw [mapping.left_eq]
  cases isInputSmallerDim with
  | true => exact Nat.sub_pos_of_lt mapping.inInside
  | false => exact Nat.sub_pos_of_lt mapping.outInside

section

variable {isInputSmallerDim : Bool} {left quotient dim : Nat} {state : State}
  (mapping : Mapping inShape outShape isInputSmallerDim (left + 1) quotient state)
include mapping

theorem Mapping.inside :
    state.minIdx isInputSmallerDim < (minShape inShape outShape isInputSmallerDim).length :=
  Nat.lt_of_sub_pos (mapping.left_eq ▸ Nat.succ_pos left)

theorem Mapping.turned (isDim : dim =
      (minShape inShape outShape isInputSmallerDim).getD (state.minIdx isInputSmallerDim) 0)
    (divides : ¬ quotient % dim ≠ 0) :
    ((minShape inShape outShape isInputSmallerDim).take
        (state.minIdx isInputSmallerDim + 1)).prod * (quotient / dim) =
      ((minShape outShape inShape isInputSmallerDim).take
        (state.minIdx (!isInputSmallerDim) + 1)).prod := by
  rw [getD_eq_getElem?_getD, getElem?_eq_getElem mapping.inside, getD_some] at isDim
  rw [prod_take_succ _ _ mapping.inside, ← isDim, Nat.mul_assoc,
    Nat.mul_div_cancel' (Nat.dvd_of_mod_eq_zero (not_not.mp divides)), mapping.equal]

theorem Mapping.push_empty {index : Nat} (behind : index > state.inIdx) :
    state.push.reassociationVec index = [] :=
  (pushBack_ne _ _ _ behind.ne').trans (mapping.empty index behind)

theorem Mapping.whole
    (equal : (inShape.take (state.inIdx + 1)).prod = (outShape.take (state.outIdx + 1)).prod) :
    Whole inShape outShape state.push.next :=
  ⟨mapping.inInside, mapping.outInside, mapping.ready, equal,
    fun _ behind => mapping.push_empty behind⟩

end

variable {isExtension : Bool} {after state : State}

theorem mapDims_closed {left : Nat} {quotient : Nat}
    (going : 0 < left → Mapping inShape outShape isInputSmallerDim left quotient state)
    (ended : left = 0 → Closed inShape outShape state.next)
    (res : mapDims inShape outShape isExtension isInputSmallerDim left quotient state =
      some after) : Closed inShape outShape after.next := by
  induction left generalizing quotient state with
  | zero =>
    cases res
    exact ended rfl
  | succ left ih =>
    have mapping := going (Nat.succ_pos left)
    have ready := mapping.ready
    simp only [mapDims, ite_none_left_eq_some] at res
    obtain ⟨divides, res⟩ := res
    have turned := mapping.turned rfl divides
    cases isInputSmallerDim with
    | true =>
      have enough : left + 1 = inShape.length - state.inIdx := mapping.left_eq
      have rest : left = inShape.length - (state.inIdx + 1) := by omega
      split at res
      · next exits =>
        cases res
        rw [exits.1, Nat.mul_one] at turned
        exact .whole (mapping.whole turned)
      · refine ih (fun more => ?_) (fun none => ?_) res
        · exact ⟨ready.push (.inr rfl) (mapping.push_empty (Nat.lt_succ_self _)),
            fun index behind => mapping.push_empty (Nat.lt_of_succ_lt behind),
            Nat.lt_of_sub_pos (rest ▸ more), mapping.outInside, rest, turned⟩
        · have last : inShape.length = state.inIdx + 1 := by omega
          rw [← last] at ready
          exact .beyondIn (congrArg (· + 1) last.symm) mapping.outInside ready
    | false =>
      have enough : left + 1 = outShape.length - state.outIdx := mapping.left_eq
      have rest : left = outShape.length - (state.outIdx + 1) := by omega
      split at res
      · next exits =>
        cases res
        rw [exits.1, Nat.mul_one] at turned
        exact .whole (mapping.whole turned.symm)
      · refine ih (fun more => ?_) (fun none => ?_) res
        · exact ⟨ready.extend (Nat.succ_pos _), fun index behind => mapping.push_empty behind,
            mapping.inInside, Nat.lt_of_sub_pos (rest ▸ more), rest, turned⟩
        · have last : outShape.length = state.outIdx + 1 := by omega
          rw [← last] at ready
          exact .beyondOut (congrArg (· + 1) last.symm) mapping.inInside ready

theorem mapShapes_closed {turns : Nat} (closed : Closed inShape outShape state)
    (res : mapShapes inShape outShape isExtension turns state = some after) :
    Closed inShape outShape after := by
  induction turns generalizing state with
  | zero =>
    cases res
    exact closed
  | succ turns ih =>
    rw [mapShapes] at res
    split at res
    · next inside =>
      have whole : Whole inShape outShape state := by
        cases closed with
        | whole whole => exact whole
        | beyondIn beyond => omega
        | beyondOut beyond => omega
      have paired := whole.handleOnes isExtension
      dsimp only at res
      split at res
      · cases res
        exact .whole paired
      · next within =>
        obtain ⟨within, outWithin⟩ := not_or.mp within
        obtain ⟨mapped, ran, rest⟩ := bind_eq_some_iff.mp res
        have mapping := paired.mapping (not_le.mp within) (not_le.mp outWithin)
        exact ih (mapDims_closed (fun _ => mapping _)
          (fun none => absurd none (mapping _).pos.ne') ran) rest
    · cases res
      exact closed

theorem Associates.foldl (count : Nat) (associates : Associates inShape outShape vec inIdx outIdx)
    (positive : 0 < inIdx) :
    Associates inShape outShape ((range' outIdx count).foldl
      (fun vec outIdxGap => pushBack vec (inIdx - 1) outIdxGap) vec) inIdx (outIdx + count) := by
  induction count generalizing outIdx vec with
  | zero => exact associates
  | succ count ih =>
    have rest := ih (associates.extend positive)
    rwa [add_assoc, add_comm 1] at rest

/-- A map that is returned associates both whole shapes. -/
theorem createReassociationMap_associates {map : List (List Nat)}
    (res : createReassociationMap inShape outShape isExtension = some map) :
    ∃ vec, map = (range inShape.length).map vec ∧
      Associates inShape outShape vec inShape.length outShape.length := by
  obtain ⟨state, ran, res⟩ := bind_eq_some_iff.mp res
  have closed := mapShapes_closed (.whole ⟨zero_le _, zero_le _, .nil, rfl,
    fun _ _ => rfl⟩) ran
  simp only [ite_none_left_eq_some] at res
  obtain ⟨nonempty, res⟩ := res
  split at res
  · next trailing =>
    obtain ⟨last, ones⟩ := trailing
    have inside := of_decide_eq_true (Bool.and_eq_true_iff.mp ones).1
    refine ⟨_, (some.inj res).symm, ?_⟩
    cases closed with
    | whole whole =>
      have associates := whole.associates
      rw [last] at associates
      have all := associates.foldl (outShape.length - state.outIdx) (pos_of_ne_zero nonempty)
      rwa [Nat.add_sub_cancel' inside.le] at all
    | beyondIn beyond => omega
    | beyondOut beyond => omega
  · simp only [ite_none_left_eq_some] at res
    obtain ⟨ended, res⟩ := res
    refine ⟨_, (some.inj res).symm, ?_⟩
    cases closed with
    | whole whole =>
      have inInside := whole.inInside
      have outInside := whole.outInside
      have associates := whole.associates
      rwa [show state.inIdx = inShape.length by omega,
        show state.outIdx = outShape.length by omega] at associates
    | beyondIn beyond inside associates =>
      rwa [show state.outIdx = outShape.length by omega] at associates
    | beyondOut beyond inside associates =>
      rwa [show state.inIdx = inShape.length by omega] at associates

end

/-! ### The result -/

/-- No input dimension before is mapped to an output dimension behind, or the other way round. -/
def Apart (map : List (List Nat)) (inIdx outIdx : Nat) : Prop :=
  (∀ outs ∈ map.take inIdx, ∀ out ∈ outs, out < outIdx) ∧
    ∀ outs ∈ map.drop inIdx, ∀ out ∈ outs, outIdx ≤ out

/-- The map is a valid reshape. Between two places where it falls apart, a group of dimensions
that it connects, the extents of the input and of the output have equal products. -/
structure IsReassociation (inShape outShape : List Nat) (map : List (List Nat)) : Prop where
  length : map.length = inShape.length
  runs : ∀ outs ∈ map, ∃ first more, outs = range' first (more + 1)
  ordered : map.Pairwise fun outs later => ∀ out ∈ outs, ∀ other ∈ later, out ≤ other
  covered : ∀ out, (∃ outs ∈ map, out ∈ outs) ↔ out < outShape.length
  groups : ∀ {inFirst inLast outFirst outLast : Nat}, inFirst ≤ inLast →
    inLast ≤ inShape.length → outFirst ≤ outLast → outLast ≤ outShape.length →
    Apart map inFirst outFirst → Apart map inLast outLast →
    ((inShape.take inLast).drop inFirst).prod = ((outShape.take outLast).drop outFirst).prod

section

variable {inShape outShape : List Nat} {vec : Nat → List Nat}

theorem Associates.equal (associates : Associates inShape outShape vec inShape.length
    outShape.length) (sameCount : inShape.prod = outShape.prod) {inIdx outIdx : Nat}
    (inInside : inIdx ≤ inShape.length) (outInside : outIdx ≤ outShape.length)
    (apart : Apart ((range inShape.length).map vec) inIdx outIdx) :
    (inShape.take inIdx).prod = (outShape.take outIdx).prod := by
  have before : ∀ earlier < inIdx, ∀ other ∈ vec earlier, other < outIdx := by
    refine fun earlier less => apart.1 _ ?_
    rw [← map_take, take_range, min_eq_left inInside]
    exact mem_map_of_mem (mem_range.mpr less)
  rcases inInside.lt_or_eq with inside | rfl
  · refine associates.equal_of_apart inside before (apart.2 _ ?_)
    rw [drop_eq_getElem_cons (by rwa [length_map, length_range]), getElem_map, getElem_range]
    exact mem_cons_self
  · rcases outInside.lt_or_eq with less | rfl
    · obtain ⟨index, below, mem⟩ := associates.covers less
      exact absurd (before index below outIdx mem) (lt_irrefl outIdx)
    · rwa [take_length, take_length]

theorem prod_take_mul_drop (shape : List Nat) {first last : Nat} (before : first ≤ last) :
    (shape.take first).prod * ((shape.take last).drop first).prod = (shape.take last).prod := by
  rw [← prod_take_mul_prod_drop (shape.take last) first, take_take, min_eq_left before]

/-- A map that is found is a valid reshape. -/
theorem getReassociationMap_valid {map : List (List Nat)}
    (positive : ∀ extent ∈ inShape, 0 < extent) (sameCount : inShape.prod = outShape.prod)
    (found : getReassociationMap inShape outShape = some map ∨
      getReassociationMapExtension inShape outShape = some map) :
    IsReassociation inShape outShape map := by
  obtain ⟨vec, rfl, associates⟩ : ∃ vec, map = (range inShape.length).map vec ∧
      Associates inShape outShape vec inShape.length outShape.length :=
    found.elim createReassociationMap_associates createReassociationMap_associates
  refine ⟨by rw [length_map, length_range], fun outs mem => ?_, ?_, fun out => ?_,
    fun inBefore inInside outBefore outInside first last => ?_⟩
  · obtain ⟨index, inside, rfl⟩ := mem_map.mp mem
    obtain ⟨first, more, run, _⟩ := associates.run (mem_range.mp inside)
    exact ⟨first, more, run⟩
  · refine pairwise_map.mpr (pairwise_lt_range.imp_of_mem fun _ laterMember before out mem
      other otherMember => ?_)
    exact associates.ordered before (mem_range.mp laterMember) mem otherMember
  · constructor
    · rintro ⟨outs, mem, inRun⟩
      obtain ⟨index, inside, rfl⟩ := mem_map.mp mem
      exact associates.lt_of_mem (mem_range.mp inside) inRun
    · intro inside
      obtain ⟨index, below, mem⟩ := associates.covers inside
      exact ⟨_, mem_map_of_mem (mem_range.mpr below), mem⟩
  · have start := associates.equal sameCount (inBefore.trans inInside)
      (outBefore.trans outInside) first
    have stop := associates.equal sameCount inInside outInside last
    rw [← prod_take_mul_drop inShape inBefore, ← prod_take_mul_drop outShape outBefore,
      ← start] at stop
    exact Nat.eq_of_mul_eq_mul_left (prod_pos fun extent mem =>
      positive extent (mem_of_mem_take mem)) stop

end

theorem sixDims_valid :
    IsReassociation [1, 2, 2, 1, 2, 3] [1, 4, 6] [[0], [1], [1], [1], [2], [2]] :=
  getReassociationMap_valid (by decide) (by decide) (.inl (by decide))

end NpuPlugin.ReshapeUtils
