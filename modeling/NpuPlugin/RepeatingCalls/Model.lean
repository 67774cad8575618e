/-
This file models a function on buffers and what it computes, and the pass that makes all calls of
one callee share their buffers. An operation is known by its place, and a copy that the pass
creates by the call and the argument it is for.
-/

import Mathlib.Order.Basic
import NpuPlugin.Library.Insertion
import NpuPlugin.Library.Loop

namespace NpuPlugin.RepeatingCalls

open List Option

/-! ### The function -/

inductive OpId
  | original (place : Nat)
  | copyIn (call input : Nat)
  | copyOut (call output : Nat)
deriving DecidableEq, Repr

/-- The position of an argument of a callee. -/
inductive Slot
  | input (idx : Nat)
  | output (idx : Nat)
deriving DecidableEq, Repr

instance Slot.lawfulBEq_site : LawfulBEq (Nat × Slot) := inferInstance

/-- A block argument or an allocation, a common argument that the pass allocates, or a result. -/
inductive Value
  | buffer (number : Nat)
  | commonArg (callee : Nat) (slot : Slot)
  | result (op : OpId) (number : Nat)
deriving DecidableEq, Repr

/-- Layers are told apart by numbers, as callees and views are. -/
inductive OpKind
  | call (callee : Nat)
  | layer (code : Nat)
  | copy
  | view (code : Nat)
deriving DecidableEq, Repr

/-- An operation reads its inputs and fills its outputs, and its results are aliases of these. The
result of a view is an alias of its input. -/
structure Op where
  kind : OpKind
  inputs : List Value
  outputs : List Value
deriving DecidableEq, Repr

namespace Op

variable (op : Op)

def operand : Slot → Option Value
  | .input idx => op.inputs[idx]?
  | .output idx => op.outputs[idx]?

def setOperand (value : Value) : Slot → Op
  | .input idx => { op with inputs := op.inputs.set idx value }
  | .output idx => { op with outputs := op.outputs.set idx value }

def replaceUses (value replacement : Value) : Op :=
  { op with
    inputs := op.inputs.map fun operand => if operand = value then replacement else operand
    outputs := op.outputs.map fun operand => if operand = value then replacement else operand }

def slots : List Slot :=
  (List.range op.inputs.length).map .input ++ (List.range op.outputs.length).map .output

def numResults : Nat :=
  match op.kind with
  | .view _ => op.inputs.length
  | _ => op.outputs.length

/-- What a result is an alias of, and the view between them. -/
def source (number : Nat) : Option (Value × List Nat) :=
  match op.kind with
  | .view code => (op.inputs[number]?).map fun value => (value, [code])
  | _ => (op.outputs[number]?).map fun value => (value, [])

/-- The operands whose contents the operation uses. -/
def reads : List Value :=
  match op.kind with
  | .view _ => []
  | _ => op.inputs

def writes : List Value :=
  match op.kind with
  | .view _ => []
  | _ => op.outputs

end Op

def Value.DefinedBefore (ops : List Op) (place : Nat) : Value → Prop
  | .buffer _ => True
  | .commonArg .. => False
  | .result op number =>
    match op with
    | .original other => other < place ∧ number < ((ops[other]?).map Op.numResults).getD 0
    | _ => False

instance (ops : List Op) (place : Nat) (value : Value) :
    Decidable (value.DefinedBefore ops place) :=
  match value with
  | .buffer _ => inferInstanceAs (Decidable True)
  | .commonArg .. => inferInstanceAs (Decidable False)
  | .result op number =>
    match op with
    | .original other => inferInstanceAs (Decidable
        (other < place ∧ number < ((ops[other]?).map Op.numResults).getD 0))
    | .copyIn .. => inferInstanceAs (Decidable False)
    | .copyOut .. => inferInstanceAs (Decidable False)

/-- The top-level function. -/
structure Program where
  ops : List Op
  operands_defined : ∀ place < ops.length, ∀ op ∈ ops[place]?, ∀ value ∈ op.inputs ++ op.outputs,
    value.DefinedBefore ops place

/-! ### Aliases -/

inductive Location
  | root (number : Nat)
  | common (callee : Nat) (slot : Slot)
deriving DecidableEq, Repr

/-- The buffer of a value, and the views that lead from the buffer to it. -/
structure Place where
  location : Location
  views : List Nat
deriving DecidableEq, Repr

def initialPlaces : Value → Place
  | .buffer number => ⟨.root number, []⟩
  | .commonArg callee slot => ⟨.common callee slot, []⟩
  | .result .. => ⟨.root 0, []⟩

def addAliases (places : Value → Place) (id : OpId) (op : Op) : Value → Place
  | .result other number =>
    if other = id then
      match op.source number with
      | some (value, views) => ⟨(places value).location, (places value).views ++ views⟩
      | none => ⟨.root 0, []⟩
    else places (.result other number)
  | value => places value

/-! ### What it computes -/

/-- What operations compute, the part of a content that a view shows, and what becomes of a content
when this part is written. -/
structure Meaning (Content : Type) where
  compute : OpKind → List Content → Nat → Content
  view : Nat → Content → Content
  update : Nat → Content → Content → Content

section

variable {Content : Type} (meaning : Meaning Content)

def readThrough (views : List Nat) (content : Content) : Content :=
  views.foldl (fun content code => meaning.view code content) content

def writeThrough : List Nat → Content → Content → Content
  | [], _, written => written
  | code :: views, content, written =>
    meaning.update code content (writeThrough views (meaning.view code content) written)

/-- The places of the values that are defined, and the contents of the buffers. -/
structure Machine (Content : Type) where
  places : Value → Place
  memory : Location → Content

def Machine.read (machine : Machine Content) (value : Value) : Content :=
  readThrough meaning (machine.places value).views
    (machine.memory (machine.places value).location)

/-- What an operation gives for an output. A copy gives what it reads. -/
def Op.result (op : Op) (contents : List Content) (number : Nat) : Option Content :=
  match op.kind with
  | .copy => contents[number]?
  | kind => some (meaning.compute kind contents number)

def writeTo (memory : Location → Content) (place : Place) (written : Content) :
    Location → Content :=
  Function.update memory place.location
    (writeThrough meaning place.views (memory place.location) written)

/-- The outputs of an operation are written in their order. -/
def writeOutputs (op : Op) (contents : List Content) (places : Value → Place)
    (memory : Location → Content) : Location → Content :=
  op.writes.zipIdx.foldl (fun memory (value, number) =>
    match op.result meaning contents number with
    | some written => writeTo meaning memory (places value) written
    | none => memory) memory

def execute (machine : Machine Content) (id : OpId) (op : Op) : Machine Content where
  places := addAliases machine.places id op
  memory := writeOutputs meaning op (op.reads.map (machine.read meaning)) machine.places
    machine.memory

def executeAll (opOf : OpId → Op) (block : List OpId) (machine : Machine Content) :
    Machine Content :=
  block.foldl (fun machine id => execute meaning machine id (opOf id)) machine

/-- What an operation of a block uses, from the contents that the buffers have at first. -/
def contentsAt (opOf : OpId → Op) (block : List OpId) (memory : Location → Content)
    (id : OpId) : List Content :=
  (opOf id).reads.map
    ((executeAll meaning opOf (block.takeWhile (· ≠ id)) ⟨initialPlaces, memory⟩).read meaning)

end

namespace Program

variable (prog : Program)

def size : Nat := prog.ops.length

def opAt (place : Nat) : Op := prog.ops.getD place ⟨.copy, [], []⟩

def opOf : OpId → Op
  | .original place => prog.opAt place
  | _ => ⟨.copy, [], []⟩

def originalBlock : List OpId := (List.range prog.size).map .original

/-! ### Analysis -/

/-- `AliasesInfo`. -/
def places : Value → Place :=
  (List.range prog.size).foldl (fun places place =>
    addAliases places (.original place) (prog.opAt place)) initialPlaces

def getSingleRoot (value : Value) : Value :=
  match (prog.places value).location with
  | .root number => .buffer number
  | .common callee slot => .commonArg callee slot

def callSites (callee : Nat) : List Nat :=
  (List.range prog.size).filter fun place => (prog.opAt place).kind = .call callee

end Program

/-- No two adjacent arguments have different roots. -/
def argsAreEquivalent (roots : List (Option Value)) : Bool :=
  (roots.zip roots.tail).all fun (one, other) => one = other

namespace Program

variable (prog : Program)

/-- The callee is called repeatedly, and its argument at this position is a common one. -/
def updates (callee : Nat) (slot : Slot) : Bool :=
  1 < (prog.callSites callee).length &&
    !argsAreEquivalent ((prog.callSites callee).map fun call =>
      ((prog.opAt call).operand slot).map prog.getSingleRoot)

/-- `ensureValidRepeatingCall`: no value is an output of several calls, or twice of one. -/
def isValidRepeatingCall (callee : Nat) : Bool :=
  ((List.range ((((prog.callSites callee).head?).map fun call =>
      (prog.opAt call).outputs.length).getD 0)).flatMap fun output =>
    (prog.callSites callee).map fun call => (prog.opAt call).outputs[output]?).Nodup

def changedOperands : List Value :=
  (List.range prog.size).flatMap fun place =>
    match (prog.opAt place).kind with
    | .call callee => (prog.opAt place).slots.filterMap fun slot =>
      if prog.updates callee slot then (prog.opAt place).operand slot else none
    | _ => []

def getRootForChangedOperand (operand : Value) : Option Value :=
  if operand ∈ prog.changedOperands then some (prog.getSingleRoot operand) else none

end Program

/-! ### Legalization -/

/-- The operations as they are, and those that were created before and after each place. -/
structure Rewriting where
  opOf : OpId → Op
  before : Nat → List OpId
  after : Nat → List OpId

def Rewriting.block (size : Nat) (state : Rewriting) : List OpId :=
  (List.range size).flatMap fun place => state.before place ++ .original place :: state.after place

def replaceInputArg (callee call input : Nat) (state : Rewriting) : Rewriting :=
  match (state.opOf (.original call)).inputs[input]? with
  | none => state
  | some src =>
    { opOf := Function.update
        (Function.update state.opOf (.copyIn call input)
          ⟨.copy, [src], [.commonArg callee (.input input)]⟩)
        (.original call)
        ((state.opOf (.original call)).setOperand (.result (.copyIn call input) 0) (.input input))
      before := Function.update state.before call (state.before call ++ [.copyIn call input])
      after := state.after }

/-- `isCurrentRepeatingCall`, for the owner of a use. -/
def isRepeatingCall (callee : Nat) (op : Op) : Bool := op.kind = .call callee

/-- The uses of a result are replaced, but not in its own copy and in calls of the same callee. -/
def replaceResult (callee call output : Nat) (opOf : OpId → Op) : OpId → Op := fun id =>
  if id = .copyOut call output ∨ isRepeatingCall callee (opOf id) then opOf id
  else (opOf id).replaceUses (.result (.original call) output) (.result (.copyOut call output) 0)

namespace Program

variable (prog : Program)

/-- The output is copied after the call, unless nothing uses the copy. -/
def replaceOutputArg (callee call output : Nat) (state : Rewriting) : Option Rewriting :=
  match (state.opOf (.original call)).outputs[output]? with
  | none => some state
  | some src => do
    let srcRoot ← prog.getRootForChangedOperand src
    let called := Function.update state.opOf (.original call)
      ((state.opOf (.original call)).setOperand (.commonArg callee (.output output))
        (.output output))
    let copied := Function.update called (.copyOut call output)
      ⟨.copy, [.result (.original call) output], [srcRoot]⟩
    let opOf := replaceResult callee call output copied
    let isUsed := (state.block prog.size).any fun id =>
      .result (.copyOut call output) 0 ∈ (opOf id).inputs ++ (opOf id).outputs
    return {
      opOf := opOf
      before := state.before
      after := if isUsed then
          Function.update state.after call (.copyOut call output :: state.after call)
        else state.after }

def replaceArgIfNecessary (callee call : Nat) (state : Rewriting) (slot : Slot) :
    Option Rewriting :=
  if prog.updates callee slot then
    match slot with
    | .input input => some (replaceInputArg callee call input state)
    | .output output => prog.replaceOutputArg callee call output state
  else some state

def legalizeCallSite (callee : Nat) (state : Rewriting) (call : Nat) : Option Rewriting :=
  (prog.opAt call).slots.foldlM (prog.replaceArgIfNecessary callee call) state

def legalize (state : Rewriting) (callee : Nat) : Option Rewriting :=
  (prog.callSites callee).foldlM (prog.legalizeCallSite callee) state

def start : Rewriting := ⟨prog.opOf, fun _ => [], fun _ => []⟩

/-- The callees, each once, in the order in which a hash map has them. -/
structure CalleeOrder where
  callees : List Nat
  nodup : callees.Nodup
  complete : ∀ place < prog.size, ∀ callee,
    (prog.opAt place).kind = .call callee → callee ∈ callees

/-- `LegalizeRepeatingFuncCallsPass`. -/
def legalizeRepeatingFuncCalls (order : prog.CalleeOrder) : Option Rewriting :=
  if order.callees.all fun callee =>
      (prog.callSites callee).length ≤ 1 || prog.isValidRepeatingCall callee then
    order.callees.foldlM prog.legalize prog.start
  else none

end Program

/-! ### The function that is obtained -/

namespace Program

variable (prog : Program)

def callee (place : Nat) : Option Nat :=
  match (prog.opAt place).kind with
  | .call callee => some callee
  | _ => none

/-- The callee of a call. -/
def calleeOf (call : Nat) : Nat := (prog.callee call).getD 0

/-- The arguments of the calls of a callee that are updated, in the order in which they are. -/
def calleeSites (callee : Nat) : List (Nat × Slot) :=
  (prog.callSites callee).flatMap fun call =>
    ((prog.opAt call).slots.filter (prog.updates callee)).map (call, ·)

def sites (order : prog.CalleeOrder) : List (Nat × Slot) := order.callees.flatMap prog.calleeSites

variable (done : List (Nat × Slot))

/-- A result of a call is replaced by its copy, but not in calls of the same callee. -/
def replacedValue (place : Nat) (value : Value) : Value :=
  match value with
  | .result (.original call) number =>
    if (call, .output number) ∈ done ∧ prog.callee place ≠ prog.callee call then
      .result (.copyOut call number) 0
    else value
  | _ => value

def rewrittenInput (place input : Nat) (value : Value) : Value :=
  if (place, .input input) ∈ done then .result (.copyIn place input) 0
  else prog.replacedValue done place value

def rewrittenOutput (place output : Nat) (value : Value) : Value :=
  if (place, .output output) ∈ done then .commonArg (prog.calleeOf place) (.output output)
  else prog.replacedValue done place value

/-- An operation when the arguments so far are updated. -/
def rewrittenOp (place : Nat) : Op where
  kind := (prog.opAt place).kind
  inputs := (prog.opAt place).inputs.mapIdx (prog.rewrittenInput done place)
  outputs := (prog.opAt place).outputs.mapIdx (prog.rewrittenOutput done place)

/-- An argument that the pass has not made a common one before it copies an output. -/
def isUserOf (order : prog.CalleeOrder) (call output place : Nat) (slot : Slot) : Bool :=
  (prog.opAt place).operand slot = some (.result (.original call) output) &&
    match slot with
    | .input _ => true
    | .output _ => (place, slot) ∉ (prog.sites order).takeWhile (· ≠ (call, .output output))

/-- The copy of an output is kept when something other than calls of the callee uses the result. -/
def isKept (order : prog.CalleeOrder) (call output : Nat) : Bool :=
  (List.range prog.size).any fun place =>
    prog.callee place ≠ prog.callee call &&
      (prog.opAt place).slots.any (prog.isUserOf order call output place)

end Program

/-! ### The order of the arguments -/

def Slot.Before : Slot → Slot → Prop
  | .input idx, .input other => idx < other
  | .input _, .output _ => True
  | .output idx, .output other => idx < other
  | .output _, .input _ => False

namespace Op

variable (op : Op)

theorem mem_slots {slot : Slot} : slot ∈ op.slots ↔ op.operand slot ≠ none := by
  unfold slots operand
  cases slot with
  | input idx => simp
  | output idx => simp

theorem slots_pairwise : op.slots.Pairwise Slot.Before := by
  unfold slots
  rw [pairwise_append]
  refine ⟨?_, ?_, ?_⟩
  · exact pairwise_map.mpr pairwise_lt_range
  · exact pairwise_map.mpr pairwise_lt_range
  · intro slot isInput other isOutput
    obtain ⟨idx, -, rfl⟩ := mem_map.mp isInput
    obtain ⟨number, -, rfl⟩ := mem_map.mp isOutput
    trivial

end Op

namespace Program

variable (prog : Program)

/-- What is done for one argument. -/
def replaceArg (state : Rewriting) (site : Nat × Slot) : Option Rewriting :=
  match site.2 with
  | .input input => some (replaceInputArg (prog.calleeOf site.1) site.1 input state)
  | .output output => prog.replaceOutputArg (prog.calleeOf site.1) site.1 output state

variable {prog} {place callee : Nat} {slot : Slot} {order : prog.CalleeOrder}

theorem callee_eq_some :
    prog.callee place = some callee ↔ (prog.opAt place).kind = .call callee := by
  unfold Program.callee
  cases (prog.opAt place).kind <;> simp

theorem opAt_of_le (outside : prog.size ≤ place) : prog.opAt place = ⟨.copy, [], []⟩ := by
  unfold opAt
  rw [getD_eq_getElem?_getD, getElem?_eq_none outside, getD_none]

theorem mem_callSites : place ∈ prog.callSites callee ↔ prog.callee place = some callee := by
  unfold callSites
  rw [mem_filter, mem_range, decide_eq_true_eq, callee_eq_some]
  refine and_iff_right_of_imp fun isCall => ?_
  by_contra outside
  rw [opAt_of_le (Nat.le_of_not_lt outside)] at isCall
  cases isCall

theorem mem_calleeSites :
    (place, slot) ∈ prog.calleeSites callee ↔ prog.callee place = some callee ∧
      (prog.opAt place).operand slot ≠ none ∧ prog.updates callee slot = true := by
  unfold calleeSites
  simp only [mem_flatMap, List.mem_map, mem_filter, Prod.mk.injEq]
  constructor
  · rintro ⟨call, isCall, other, ⟨isSlot, updated⟩, rfl, rfl⟩
    exact ⟨mem_callSites.mp isCall, (Op.mem_slots _).mp isSlot, updated⟩
  · rintro ⟨isCall, isSlot, updated⟩
    exact ⟨place, mem_callSites.mpr isCall, slot, ⟨(Op.mem_slots _).mpr isSlot, updated⟩, rfl, rfl⟩

theorem mem_sites :
    (place, slot) ∈ prog.sites order ↔ ∃ callee, prog.callee place = some callee ∧
      (prog.opAt place).operand slot ≠ none ∧ prog.updates callee slot = true := by
  unfold sites
  rw [mem_flatMap]
  constructor
  · rintro ⟨callee, -, mem⟩
    exact ⟨callee, mem_calleeSites.mp mem⟩
  · rintro ⟨callee, isCall, rest⟩
    refine ⟨callee, order.complete place ?_ callee (callee_eq_some.mp isCall),
      mem_calleeSites.mpr ⟨isCall, rest⟩⟩
    by_contra outside
    have kind := callee_eq_some.mp isCall
    rw [opAt_of_le (Nat.le_of_not_lt outside)] at kind
    cases kind

/-- The calls of one callee are treated in their order, and the arguments of a call in theirs. -/
def SiteBefore (prog : Program) (site other : Nat × Slot) : Prop :=
  (prog.callee site.1 = prog.callee other.1 →
    site.1 < other.1 ∨ site.1 = other.1 ∧ site.2.Before other.2) ∧ site ≠ other

theorem sites_pairwise (order : prog.CalleeOrder) :
    (prog.sites order).Pairwise prog.SiteBefore := by
  unfold sites
  rw [pairwise_flatMap]
  constructor
  · intro callee _
    unfold calleeSites
    rw [pairwise_flatMap]
    constructor
    · intro call _
      rw [pairwise_map]
      refine ((Op.slots_pairwise _).filter _).imp ?_
      intro slot other before
      refine ⟨fun _ => .inr ⟨rfl, before⟩, ?_⟩
      rintro ⟨⟩
      cases slot <;> exact Nat.lt_irrefl _ before
    · refine (pairwise_lt_range.filter _).imp ?_
      intro call other less site isSite otherSite isOther
      obtain ⟨slot, -, rfl⟩ := mem_map.mp isSite
      obtain ⟨otherSlot, -, rfl⟩ := mem_map.mp isOther
      refine ⟨fun _ => .inl less, ?_⟩
      rintro ⟨⟩
      exact Nat.lt_irrefl _ less
  · refine (nodup_iff_pairwise_ne.mp order.nodup).imp ?_
    rintro callee other different ⟨place, slot⟩ isSite ⟨otherPlace, otherSlot⟩ isOther
    have first := (mem_calleeSites.mp isSite).1
    have second := (mem_calleeSites.mp isOther).1
    constructor
    · intro same
      rw [first, second, some.injEq] at same
      exact absurd same different
    · rintro ⟨⟩
      rw [first, some.injEq] at second
      exact different second

theorem sites_nodup (order : prog.CalleeOrder) : (prog.sites order).Nodup :=
  nodup_iff_pairwise_ne.mpr ((sites_pairwise order).imp And.right)

theorem legalizeRepeatingFuncCalls_eq {final : Rewriting}
    (legalized : prog.legalizeRepeatingFuncCalls order = some final) :
    (prog.sites order).foldlM prog.replaceArg prog.start = some final := by
  unfold legalizeRepeatingFuncCalls at legalized
  split at legalized
  · rw [← legalized]
    unfold sites
    rw [Attempt.foldlM_flatMap]
    have each : ∀ state callee, (prog.calleeSites callee).foldlM prog.replaceArg state =
        prog.legalize state callee := by
      intro state callee
      unfold calleeSites legalize
      rw [Attempt.foldlM_flatMap]
      refine Attempt.foldlM_congr _ (fun call isCall state => ?_) state
      rw [foldlM_map, foldlM_filter]
      congr 1
      funext state slot
      unfold replaceArg replaceArgIfNecessary calleeOf
      rw [mem_callSites.mp isCall, getD_some]
      rfl
    exact congrArg (fun step => order.callees.foldlM step prog.start)
      (funext fun state => funext fun callee => each state callee)
  · cases legalized

end Program

end NpuPlugin.RepeatingCalls
