/-
This file models the naive splitter, which distributes the operations of the main function over
parts by their longest distance from the block arguments. The distances it finds are the longest
ones, and operations that are executed again in a slice give what they give in the main function.
-/

import NpuPlugin.Library.Reachability

namespace NpuPlugin.FunctionOutlining

/-! ### The main function -/

/-- The name of an operation, as far as names are told apart. -/
inductive OpName
  | convert
  | transpose
  | fakeQuantize
  | fakeConvert
  | readValue
  | assign
  | declare
  | other (name : Nat)
deriving DecidableEq, Repr

inductive Value
  | blockArgument (idx : Nat)
  | result (op number : Nat)
deriving DecidableEq, Repr

/-- An operation. Attributes, which include the content of a constant, and types are numbered. -/
structure Operation where
  name : OpName
  attributes : Nat
  resultTypes : List Nat
  operands : List Value
deriving DecidableEq, Repr

/-- A value that is defined when the operation at a place is reached. -/
def Value.DefinedBefore (argumentTypes : List Nat) (operations : List Operation) (place : Nat) :
    Value → Prop
  | .blockArgument idx => idx < argumentTypes.length
  | .result op number => op < place ∧ number < ((operations[op]?).map (·.resultTypes.length)).getD 0

instance (argumentTypes : List Nat) (operations : List Operation) (place : Nat) (value : Value) :
    Decidable (value.DefinedBefore argumentTypes operations place) :=
  match value with
  | .blockArgument idx => inferInstanceAs (Decidable (idx < argumentTypes.length))
  | .result op number => inferInstanceAs (Decidable (op < place ∧
      number < ((operations[op]?).map (·.resultTypes.length)).getD 0))

/-- The main function, with the operands of its `ReturnOp`. -/
structure Function where
  argumentTypes : List Nat
  operations : List Operation
  returned : List Value
  operands_defined : ∀ place < operations.length, ∀ operation ∈ operations[place]?,
    ∀ operand ∈ operation.operands, operand.DefinedBefore argumentTypes operations place
  returned_defined : ∀ value ∈ returned,
    value.DefinedBefore argumentTypes operations operations.length

def Value.getDefiningOp : Value → Option Nat
  | .blockArgument _ => none
  | .result op _ => some op

namespace Function

variable (function : Function)

def size : Nat := function.operations.length

def nameOf (op : Nat) : Option OpName := (function.operations[op]?).map Operation.name

def operandsOf (op : Nat) : List Value :=
  ((function.operations[op]?).map Operation.operands).getD []

def resultTypesOf (op : Nat) : List Nat :=
  ((function.operations[op]?).map Operation.resultTypes).getD []

def resultsOf (op : Nat) : List Value :=
  (List.range (function.resultTypesOf op).length).map (Value.result op)

def typeOf : Value → Option Nat
  | .blockArgument idx => function.argumentTypes[idx]?
  | .result op number => (function.resultTypesOf op)[number]?

/-- A value of the function. -/
def Defined (value : Value) : Prop :=
  value.DefinedBefore function.argumentTypes function.operations function.size

end Function

/-- The uses of each value, by operation and number of the operand, without those by the `ReturnOp`.
The order in which a value lists its uses is not known. -/
structure UseLists (function : Function) where
  uses : Value → List (Nat × Nat)
  mem_uses : ∀ value user number,
    (user, number) ∈ uses value ↔ (function.operandsOf user)[number]? = some value

def UseLists.getUsers {function : Function} (lists : UseLists function) (value : Value) :
    List Nat :=
  (lists.uses value).map Prod.fst

/-! ### What it computes -/

/-- What decides about the meaning of an operation. -/
structure OperationKey where
  name : Option OpName
  attributes : Option Nat
  resultTypes : List Nat
  operandTypes : List (Option Nat)
deriving DecidableEq, Repr

/-- What operations compute: the result with a number, from the contents of the operands. -/
abbrev Meaning (Content : Type) := OperationKey → List Content → Nat → Content

/-- The contents of values, also of those that a value of the main function was replaced by. -/
abbrev Environment (Content : Type) := Value → Option Content

def Environment.bind {Content : Type} (environment : Environment Content) (values : List Value)
    (contents : List Content) : Environment Content :=
  (values.zip contents).foldl (fun environment entry =>
    Function.update environment entry.1 (some entry.2)) environment

namespace Function

variable (function : Function) {Content : Type}

def keyOf (op : Nat) : OperationKey where
  name := function.nameOf op
  attributes := (function.operations[op]?).map Operation.attributes
  resultTypes := function.resultTypesOf op
  operandTypes := (function.operandsOf op).map function.typeOf

def execute (meaning : Meaning Content) (environment : Environment Content) (op : Nat) :
    Option (Environment Content) := do
  let contents ← (function.operandsOf op).mapM environment
  return fun value =>
    if value ∈ function.resultsOf op then
      match value with
      | .result _ number => some (meaning (function.keyOf op) contents number)
      | .blockArgument _ => environment value
    else environment value

def executeAll (meaning : Meaning Content) (ops : List Nat) (environment : Environment Content) :
    Option (Environment Content) :=
  ops.foldlM (function.execute meaning) environment

def entry (arguments : List Content) : Environment Content
  | .blockArgument idx => arguments[idx]?
  | .result _ _ => none

/-- What the original function returns. -/
def call (meaning : Meaning Content) (arguments : List Content) : Option (List Content) := do
  let environment ← function.executeAll meaning (List.range function.size) (entry arguments)
  function.returned.mapM environment

end Function

/-! ### Slices -/

structure IRSlice where
  inputs : List Value
  outputs : List Value
  operations : List Nat
  inputUserMapping : List (Nat × Nat)
deriving DecidableEq, Repr

def IRSlice.empty : IRSlice := ⟨[], [], [], []⟩

/-! ### The naive splitter -/

namespace Function

variable (function : Function)

/-! ### Preprocessing operations -/

def isPreprocessingOp (op : Nat) : Bool :=
  function.nameOf op = some .convert || function.nameOf op = some .transpose ||
    function.nameOf op = some .fakeQuantize || function.nameOf op = some .fakeConvert

/-- `isPreprocessingOpAndHasBlockArgParent`, with a bound on the depth of the recursion. -/
def hasBlockArgParentWithin : Nat → Nat → Bool
  | 0, _ => false
  | depth + 1, op =>
    function.isPreprocessingOp op &&
      match (function.operandsOf op).head? with
      | some (.result parent _) => hasBlockArgParentWithin depth parent
      | some (.blockArgument _) => true
      | none => false

/-- The parent of an operation precedes it. -/
def isPreprocessingOpAndHasBlockArgParent (op : Nat) : Bool :=
  function.hasBlockArgParentWithin (op + 1) op

end Function

/-! ### Distances -/

/-- The distances found so far, the operations in the queue, which has none twice, and the greatest
distance. -/
structure DistanceState where
  distances : Nat → Option Nat
  ops : List Nat
  maxDistance : Nat

def DistanceState.pushOp (state : DistanceState) (op : Nat) : DistanceState :=
  if op ∈ state.ops then state else { state with ops := state.ops ++ [op] }

section

variable {function : Function} (lists : UseLists function)

def visitArgumentUser (state : DistanceState) (userOp : Nat) : DistanceState :=
  let pushed := state.pushOp userOp
  { pushed with distances := Function.update pushed.distances userOp (some 0) }

/-- `distances[userOp]` is zero at first. -/
def visitUser (op : Nat) (state : DistanceState) (userOp : Nat) : DistanceState :=
  let distance := max ((state.distances userOp).getD 0) ((state.distances op).getD 0 + 1)
  DistanceState.pushOp
    { state with
      distances := Function.update state.distances userOp (some distance)
      maxDistance := max state.maxDistance distance } userOp

def startDistances : DistanceState :=
  ((List.range function.argumentTypes.length).flatMap fun idx =>
    lists.getUsers (.blockArgument idx)).foldl visitArgumentUser ⟨fun _ => none, [], 0⟩

/-- The queue is worked off. Each turn takes an operation out of it. -/
def propagateDistances : Nat → DistanceState → Option DistanceState
  | _, ⟨distances, [], maxDistance⟩ => some ⟨distances, [], maxDistance⟩
  | 0, ⟨_, _ :: _, _⟩ => none
  | fuel + 1, ⟨distances, op :: ops, maxDistance⟩ =>
    propagateDistances fuel (((function.resultsOf op).flatMap lists.getUsers).foldl (visitUser op)
      ⟨distances, ops, maxDistance⟩)

/-- The number of turns is at most exponential in the number of operations. -/
def getOpDistances : Option DistanceState :=
  propagateDistances lists (2 ^ (function.size + 1)) (startDistances lists)

end

/-- `findSplittingPoints`, from the greatest distance. -/
def splittingPointsOf (maxDistance numSplits : Nat) : List Nat :=
  if maxDistance < numSplits then []
  else (List.range (numSplits - 1)).map fun split => (split + 1) * (maxDistance / numSplits)

def splitIdxOf (splittingPoints : List Nat) (distance : Nat) : Nat :=
  splittingPoints.findIdx fun splittingPoint => distance ≤ splittingPoint

/-! ### Splits -/

/-- `NaiveSplitter`, when the distances and the splitting points are known. -/
structure NaiveSplitter (function : Function) where
  lists : UseLists function
  distances : Nat → Option Nat
  splittingPoints : List Nat

namespace NaiveSplitter

variable {function : Function} (splitter : NaiveSplitter function)

def findSplitIdx (op : Nat) : Option Nat :=
  (splitter.distances op).map (splitIdxOf splitter.splittingPoints)

variable (currentSplitIdx : Nat)

def addOperandToSplitIfInput (currentSplit : IRSlice) (operand : Value) : IRSlice :=
  if operand ∈ currentSplit.inputs then currentSplit
  else
    match operand with
    | .blockArgument _ => { currentSplit with inputs := currentSplit.inputs ++ [operand] }
    | .result parentOp _ =>
      match splitter.findSplitIdx parentOp with
      | none => currentSplit
      | some parentSplitIdx =>
        if parentSplitIdx = currentSplitIdx then currentSplit
        else if function.isPreprocessingOpAndHasBlockArgParent parentOp then currentSplit
        else { currentSplit with inputs := currentSplit.inputs ++ [operand] }

def staysInOtherSplit (currentSplitIdx op : Nat) : Bool :=
  !function.isPreprocessingOpAndHasBlockArgParent op &&
    (splitter.findSplitIdx op).any fun splitIdx => splitIdx ≠ currentSplitIdx

/-- One operand of an operation of a split, with what adds its parent. -/
def visitOperand (addParentOps : IRSlice → Nat → IRSlice)
    (currentSplit : IRSlice) (operand : Value) : IRSlice :=
  let withInput := splitter.addOperandToSplitIfInput currentSplitIdx currentSplit operand
  match operand with
  | .blockArgument _ => withInput
  | .result parentOp _ => addParentOps withInput parentOp

/-- `addParentOpsToSplit`, with a bound on the depth of the recursion. The operations that a split
covers are those it has. -/
def addParentOpsWithin (currentSplitIdx : Nat) : Nat → IRSlice → Nat → IRSlice
  | 0, currentSplit, _ => currentSplit
  | depth + 1, currentSplit, op =>
    if op ∈ currentSplit.operations then currentSplit
    else if splitter.staysInOtherSplit currentSplitIdx op then currentSplit
    else
      let withParents := (function.operandsOf op).foldl
        (splitter.visitOperand currentSplitIdx (addParentOpsWithin currentSplitIdx depth))
        currentSplit
      { withParents with operations := withParents.operations ++ [op] }

/-- The parents of an operation precede it. -/
def addParentOpsToSplit (currentSplit : IRSlice) (op : Nat) : IRSlice :=
  splitter.addParentOpsWithin currentSplitIdx (op + 1) currentSplit op

/-- A user in another split, or the `ReturnOp`. -/
def isOutput (result : Value) : Bool :=
  result ∈ function.returned || (splitter.lists.getUsers result).any fun userOp =>
    (splitter.findSplitIdx userOp).any fun userSplitIdx => userSplitIdx ≠ currentSplitIdx

def addResultToSplitIfOutput (currentSplitIdx op : Nat) (currentSplit : IRSlice) (result : Value) :
    IRSlice :=
  if result ∈ currentSplit.outputs then currentSplit
  else if splitter.isOutput currentSplitIdx result &&
      !function.isPreprocessingOpAndHasBlockArgParent op then
    { currentSplit with outputs := currentSplit.outputs ++ [result] }
  else currentSplit

def visitOp (splitIdx : Nat) (currentSplit : IRSlice) (op : Nat) : IRSlice :=
  let covered :=
    if op ∈ currentSplit.operations then currentSplit
    else
      let withOperands := (function.operandsOf op).foldl
        (splitter.visitOperand splitIdx (splitter.addParentOpsToSplit splitIdx)) currentSplit
      { withOperands with operations := withOperands.operations ++ [op] }
  (function.resultsOf op).foldl (splitter.addResultToSplitIfOutput splitIdx op) covered

/-- The body of the walk. -/
def walkOp (splits : Nat → IRSlice) (op : Nat) : Nat → IRSlice :=
  match splitter.findSplitIdx op with
  | none => splits
  | some splitIdx =>
    Function.update splits splitIdx (splitter.visitOp splitIdx (splits splitIdx) op)

def walk : Nat → IRSlice := (List.range function.size).foldl splitter.walkOp fun _ => IRSlice.empty

end NaiveSplitter

/-! ### Targets -/

namespace Function

variable (function : Function)

def hasReadValueOp (operations : List Nat) : Bool :=
  operations.any fun op => function.nameOf op = some .readValue

def hasAssignOp (operations : List Nat) : Bool :=
  operations.any fun op => function.nameOf op = some .assign

def isEmptySlice (slice : IRSlice) : Bool :=
  slice.operations.isEmpty || slice.inputs.isEmpty && !function.hasReadValueOp slice.operations ||
    slice.outputs.isEmpty && !function.hasAssignOp slice.operations

end Function

section

variable {function : Function} (lists : UseLists function) (numSplits : Nat)

/-- `NaiveSplitter::getOutliningInstances`. Each instance has one slice. -/
def getOutliningInstances : Option (List IRSlice) := do
  let state ← getOpDistances lists
  let splittingPoints := splittingPointsOf state.maxDistance numSplits
  if splittingPoints.isEmpty || splittingPoints.length + 1 ≠ numSplits then return []
  else
    let splitter : NaiveSplitter function := ⟨lists, state.distances, splittingPoints⟩
    return (List.range numSplits).map splitter.walk

def getOutliningTargets : Option (List IRSlice) := do
  if numSplits ≤ 1 then return []
  else
    let outliningInstances ← getOutliningInstances lists numSplits
    if outliningInstances.any function.isEmptySlice then return []
    else return outliningInstances

end

/-! ### Functions and calls -/

namespace Function

variable (function : Function) {Content : Type}

/-- `buildFuncOps`: what the function of a slice returns. No operand may be missing. -/
def callSlice (meaning : Meaning Content) (slice : IRSlice) (contents : List Content) :
    Option (List Content) := do
  let environment ← function.executeAll meaning slice.operations
    (Environment.bind (fun _ => none) slice.inputs contents)
  slice.outputs.mapM environment

/-- The call of one part. -/
def executePart (meaning : Meaning Content) (environment : Environment Content) (slice : IRSlice) :
    Option (Environment Content) := do
  let newInputs ← slice.inputs.mapM environment
  let results ← function.callSlice meaning slice newInputs
  return environment.bind slice.outputs results

/-- `buildCallOps`: what the main function returns when it calls the parts. -/
def callParts (meaning : Meaning Content) (parts : List IRSlice) (arguments : List Content) :
    Option (List Content) := do
  let environment ← parts.foldlM (function.executePart meaning) (entry arguments)
  function.returned.mapM environment

end Function

/-! ### Users -/

open Function List Nat

namespace Function

variable (function : Function)

/-- A result of the first operation is an operand of the second one. -/
def Feeds (op userOp : Nat) : Prop := ∃ number, Value.result op number ∈ function.operandsOf userOp

variable {function} {op : Nat}

theorem operandsOf_eq_nil (outside : function.size ≤ op) : function.operandsOf op = [] := by
  unfold operandsOf
  rw [getElem?_eq_none outside]
  rfl

theorem definedBefore_of_mem_operandsOf {operand : Value} (mem : operand ∈ function.operandsOf op) :
    op < function.size ∧
      operand.DefinedBefore function.argumentTypes function.operations op := by
  have inside : op < function.size := by
    by_contra outside
    rw [operandsOf_eq_nil (not_lt.mp outside)] at mem
    exact absurd mem not_mem_nil
  refine ⟨inside, ?_⟩
  unfold operandsOf at mem
  have found := getElem?_eq_getElem inside
  rw [found] at mem
  exact function.operands_defined op inside _ found operand mem

theorem mem_resultsOf {value : Value} :
    value ∈ function.resultsOf op ↔
      ∃ number < (function.resultTypesOf op).length, value = .result op number := by
  unfold resultsOf
  simp only [mem_map, mem_range, eq_comm]

theorem length_resultTypesOf (op : Nat) :
    (function.resultTypesOf op).length =
      ((function.operations[op]?).map (·.resultTypes.length)).getD 0 := by
  unfold resultTypesOf
  cases function.operations[op]? with
  | none => rfl
  | some operation => rfl

theorem mem_resultsOf_of_operand {parentOp number : Nat}
    (mem : Value.result parentOp number ∈ function.operandsOf op) :
    parentOp < op ∧ Value.result parentOp number ∈ function.resultsOf parentOp := by
  obtain ⟨-, before, inside⟩ := definedBefore_of_mem_operandsOf mem
  exact ⟨before, mem_resultsOf.mpr ⟨number, (length_resultTypesOf parentOp).symm ▸ inside, rfl⟩⟩

theorem Feeds.lt {userOp : Nat} (feeds : function.Feeds op userOp) :
    op < userOp ∧ userOp < function.size := by
  obtain ⟨number, mem⟩ := feeds
  exact ⟨(mem_resultsOf_of_operand mem).1, (definedBefore_of_mem_operandsOf mem).1⟩

variable (lists : UseLists function) {userOp : Nat}

theorem mem_getUsers {value : Value} :
    userOp ∈ lists.getUsers value ↔ value ∈ function.operandsOf userOp := by
  unfold UseLists.getUsers
  rw [mem_map, mem_iff_getElem?]
  constructor
  · rintro ⟨⟨user, number⟩, mem, rfl⟩
    exact ⟨number, (lists.mem_uses value user number).mp mem⟩
  · rintro ⟨number, found⟩
    exact ⟨(userOp, number), (lists.mem_uses value userOp number).mpr found, rfl⟩

theorem mem_users_of_op :
    userOp ∈ (function.resultsOf op).flatMap lists.getUsers ↔ function.Feeds op userOp := by
  rw [mem_flatMap]
  constructor
  · rintro ⟨value, isResult, uses⟩
    obtain ⟨number, -, rfl⟩ := mem_resultsOf.mp isResult
    exact ⟨number, (mem_getUsers lists).mp uses⟩
  · rintro ⟨number, mem⟩
    exact ⟨_, (mem_resultsOf_of_operand mem).2, (mem_getUsers lists).mpr mem⟩

theorem mem_argumentUsers :
    userOp ∈ ((List.range function.argumentTypes.length).flatMap fun idx =>
        lists.getUsers (.blockArgument idx)) ↔
      ∃ idx, Value.blockArgument idx ∈ function.operandsOf userOp := by
  rw [mem_flatMap]
  constructor
  · rintro ⟨idx, -, uses⟩
    exact ⟨idx, (mem_getUsers lists).mp uses⟩
  · rintro ⟨idx, mem⟩
    exact ⟨idx, mem_range.mpr (definedBefore_of_mem_operandsOf mem).2, (mem_getUsers lists).mpr mem⟩

/-! ### The longest distance -/

variable (function)

/-- The longest distance from the block arguments over at most some operations. -/
def depthWithin : Nat → Nat → Option Nat
  | 0, _ => none
  | bound + 1, op =>
    ((function.operandsOf op).filterMap fun operand =>
      match operand with
      | .blockArgument _ => some 0
      | .result parentOp _ => (depthWithin bound parentOp).map (· + 1)).max?

/-- The longest distance from the block arguments. -/
def depth (op : Nat) : Option Nat := function.depthWithin (op + 1) op

/-- How far an operand puts its user. -/
def depthAfter : Value → Option Nat
  | .blockArgument _ => some 0
  | .result parentOp _ => (function.depth parentOp).map (· + 1)

/-- The greatest longest distance. -/
def maxDepth : Nat := (((List.range function.size).filterMap function.depth).max?).getD 0

variable {function}

/-- More operations than there are before one do not matter. -/
theorem depthWithin_eq {bound other : Nat} (enough : op < bound) (otherEnough : op < other) :
    function.depthWithin bound op = function.depthWithin other op := by
  induction op using Nat.strong_induction_on generalizing bound other with
  | _ op ih =>
    obtain ⟨bound, rfl⟩ : ∃ rest, bound = rest + 1 := ⟨bound - 1, by omega⟩
    obtain ⟨other, rfl⟩ : ∃ rest, other = rest + 1 := ⟨other - 1, by omega⟩
    refine congrArg max? (filterMap_congr fun operand mem => ?_)
    cases operand with
    | blockArgument idx => rfl
    | result parentOp number =>
      have before := (mem_resultsOf_of_operand mem).1
      exact congrArg (Option.map (· + 1))
        (ih parentOp before (by omega) (by omega))

theorem depth_eq (op : Nat) :
    function.depth op = ((function.operandsOf op).filterMap function.depthAfter).max? := by
  unfold depth
  refine congrArg max? (filterMap_congr fun operand mem => ?_)
  cases operand with
  | blockArgument idx => rfl
  | result parentOp number =>
    have before := (mem_resultsOf_of_operand mem).1
    exact congrArg (Option.map (· + 1)) (depthWithin_eq before (lt_succ_self parentOp))

variable {distance : Nat}

theorem depth_eq_some_iff :
    function.depth op = some distance ↔
      (∃ operand ∈ function.operandsOf op, function.depthAfter operand = some distance) ∧
        ∀ operand ∈ function.operandsOf op, ∀ other, function.depthAfter operand = some other →
          other ≤ distance := by
  rw [depth_eq, max?_eq_some_iff, mem_filterMap]
  refine and_congr_right fun _ => ?_
  simp only [mem_filterMap, forall_exists_index, and_imp]
  exact ⟨fun each operand mem other found => each other operand mem found,
    fun each other operand mem found => each operand mem other found⟩

theorem depth_eq_none_iff :
    function.depth op = none ↔
      ∀ operand ∈ function.operandsOf op, function.depthAfter operand = none := by
  rw [depth_eq, max?_eq_none_iff, filterMap_eq_nil_iff]

theorem exists_depth {operand : Value} (mem : operand ∈ function.operandsOf op)
    (found : function.depthAfter operand = some distance) :
    ∃ own, function.depth op = some own ∧ distance ≤ own := by
  cases isDepth : function.depth op with
  | none =>
    rw [depth_eq_none_iff.mp isDepth operand mem] at found
    cases found
  | some own => exact ⟨own, rfl, (depth_eq_some_iff.mp isDepth).2 operand mem distance found⟩

end Function

/-! ### The queue -/

section

variable {function : Function} {lists : UseLists function} {state : DistanceState} {op : Nat}

theorem mem_pushOp {other : Nat} :
    other ∈ (state.pushOp op).ops ↔ other ∈ state.ops ∨ other = op := by
  unfold DistanceState.pushOp
  split
  · rename_i known
    exact (or_iff_left_of_imp fun same => same ▸ known).symm
  · show other ∈ state.ops ++ [op] ↔ _
    rw [mem_append, mem_singleton]

theorem nodup_pushOp (nodup : state.ops.Nodup) : (state.pushOp op).ops.Nodup := by
  unfold DistanceState.pushOp
  split
  · exact nodup
  · rename_i unknown
    rw [nodup_append_comm]
    exact nodup_cons.mpr ⟨unknown, nodup⟩

@[simp] theorem distances_pushOp (state : DistanceState) (op : Nat) :
    (state.pushOp op).distances = state.distances := by
  unfold DistanceState.pushOp
  split <;> rfl

@[simp] theorem maxDistance_pushOp (state : DistanceState) (op : Nat) :
    (state.pushOp op).maxDistance = state.maxDistance := by
  unfold DistanceState.pushOp
  split <;> rfl

/-- What the search keeps: distances are not above the longest ones, operations in the queue have
one, and the greatest one is known. -/
structure Searching (function : Function) (state : DistanceState) : Prop where
  nodup : state.ops.Nodup
  bounded : ∀ op distance, state.distances op = some distance →
    ∃ longest, function.depth op = some longest ∧ distance ≤ longest
  queued : ∀ op ∈ state.ops, state.distances op ≠ none
  atMost : ∀ op distance, state.distances op = some distance → distance ≤ state.maxDistance
  reached : state.maxDistance = 0 ∨
    ∃ op distance, state.distances op = some distance ∧ state.maxDistance ≤ distance

theorem Searching.raise (searching : Searching function state) {distance longest : Nat}
    (isDepth : function.depth op = some longest) (bounded : distance ≤ longest)
    (raised : ∀ before, state.distances op = some before → before ≤ distance) :
    Searching function (DistanceState.pushOp { state with
        distances := Function.update state.distances op (some distance)
        maxDistance := max state.maxDistance distance } op) := by
  constructor
  · exact nodup_pushOp searching.nodup
  · intro other found
    rw [distances_pushOp]
    dsimp only
    by_cases same : other = op
    · rw [same, Function.update_self, Option.some.injEq]
      rintro rfl
      exact ⟨longest, isDepth, bounded⟩
    · rw [Function.update_of_ne same]
      exact searching.bounded other found
  · intro other mem
    rw [distances_pushOp]
    dsimp only
    by_cases same : other = op
    · rw [same, Function.update_self]
      exact Option.some_ne_none _
    · rw [Function.update_of_ne same]
      exact searching.queued other ((mem_pushOp.mp mem).resolve_right same)
  · intro other found
    rw [distances_pushOp, maxDistance_pushOp]
    dsimp only
    by_cases same : other = op
    · rw [same, Function.update_self, Option.some.injEq]
      rintro rfl
      exact le_max_right _ _
    · rw [Function.update_of_ne same]
      exact fun isFound => (searching.atMost other found isFound).trans (le_max_left _ _)
  · rw [distances_pushOp, maxDistance_pushOp]
    rcases le_total state.maxDistance distance with less | greater
    · refine .inr ⟨op, distance, Function.update_self _ _ _, ?_⟩
      rw [max_eq_right less]
    · rw [max_eq_left greater]
      refine searching.reached.imp_right fun ⟨other, found, isFound, least⟩ => ?_
      by_cases same : other = op
      · rw [same] at isFound
        exact ⟨op, distance, Function.update_self _ _ _, least.trans (raised found isFound)⟩
      · exact ⟨other, found, (Function.update_of_ne same _ _).trans isFound, least⟩

/-- An operation that is not in the queue has put its users further away than itself. -/
def Relaxed (function : Function) (state : DistanceState) : Prop :=
  ∀ op, op ∉ state.ops → ∀ distance, state.distances op = some distance →
    ∀ userOp, function.Feeds op userOp →
      ∃ further, state.distances userOp = some further ∧ distance + 1 ≤ further

/-- The users of block arguments have a distance. -/
def Sourced (function : Function) (state : DistanceState) : Prop :=
  ∀ op idx, Value.blockArgument idx ∈ function.operandsOf op → state.distances op ≠ none

/-! ### The start -/

theorem visitArgumentUser_eq (state : DistanceState) (userOp : Nat) :
    visitArgumentUser state userOp = DistanceState.pushOp
      { state with
        distances := Function.update state.distances userOp (some 0)
        maxDistance := max state.maxDistance 0 } userOp := by
  unfold visitArgumentUser DistanceState.pushOp
  split <;> simp

/-- At the start all distances are zero, and what has one is in the queue. -/
theorem searching_foldl_visitArgumentUser (users : List Nat)
    (uses : ∀ userOp ∈ users, ∃ idx, Value.blockArgument idx ∈ function.operandsOf userOp)
    (state : DistanceState) (searching : Searching function state)
    (start : ∀ op distance, state.distances op = some distance → distance = 0 ∧ op ∈ state.ops) :
    Searching function (users.foldl visitArgumentUser state) ∧
      (∀ op distance, (users.foldl visitArgumentUser state).distances op = some distance →
        distance = 0 ∧ op ∈ (users.foldl visitArgumentUser state).ops) ∧
      ∀ op, op ∈ users ∨ state.distances op ≠ none →
        (users.foldl visitArgumentUser state).distances op ≠ none := by
  induction users generalizing state with
  | nil => exact ⟨searching, start, fun op known => known.resolve_left not_mem_nil⟩
  | cons userOp rest ih =>
    obtain ⟨⟨idx, isOperand⟩, restUses⟩ := forall_mem_cons.mp uses
    obtain ⟨longest, isDepth, -⟩ := Function.exists_depth isOperand
      (show function.depthAfter (.blockArgument idx) = some 0 from rfl)
    have raised := searching.raise isDepth (zero_le _)
      fun before found => (start userOp before found).1.le
    rw [← visitArgumentUser_eq] at raised
    have updated : (visitArgumentUser state userOp).distances =
        Function.update state.distances userOp (some 0) := by
      rw [visitArgumentUser_eq, distances_pushOp]
    have pushed : ∀ other, other ∈ (visitArgumentUser state userOp).ops ↔
        other ∈ state.ops ∨ other = userOp := fun other => by
      exact mem_pushOp
    obtain ⟨searched, zero, known⟩ := ih restUses _ raised fun op distance => by
      rw [updated, pushed]
      by_cases same : op = userOp
      · rw [same, Function.update_self, Option.some.injEq]
        exact fun isZero => ⟨isZero.symm, .inr rfl⟩
      · rw [Function.update_of_ne same]
        exact fun found => ⟨(start op distance found).1, .inl (start op distance found).2⟩
    refine ⟨searched, zero, fun op known' => known op ?_⟩
    by_cases same : op = userOp
    · rw [same, updated, Function.update_self]
      exact .inr (Option.some_ne_none _)
    · rw [updated, Function.update_of_ne same]
      exact known'.imp_left fun mem => (mem_cons.mp mem).resolve_left same

theorem startDistances_searching (lists : UseLists function) :
    Searching function (startDistances lists) ∧ Relaxed function (startDistances lists) ∧
      Sourced function (startDistances lists) := by
  obtain ⟨searching, zero, known⟩ := searching_foldl_visitArgumentUser _
    (fun userOp mem => (mem_argumentUsers lists).mp mem) ⟨fun _ => none, [], 0⟩
    ⟨nodup_nil, nofun, nofun, nofun, .inl rfl⟩ nofun
  refine ⟨searching, fun op unqueued distance found => ?_, fun op idx mem => ?_⟩
  · exact absurd (zero op distance found).2 unqueued
  · exact known op (.inl ((mem_argumentUsers lists).mpr ⟨idx, mem⟩))

/-! ### A turn -/

theorem foldl_visitUser {distance : Nat} (users : List Nat)
    (feeds : ∀ userOp ∈ users, function.Feeds op userOp) (state : DistanceState)
    (searching : Searching function state) (found : state.distances op = some distance) :
    Searching function (users.foldl (visitUser op) state) ∧
      (∀ other, (users.foldl (visitUser op) state).distances other =
        if other ∈ users then some (max ((state.distances other).getD 0) (distance + 1))
        else state.distances other) ∧
      ∀ other, other ∈ (users.foldl (visitUser op) state).ops ↔
        other ∈ state.ops ∨ other ∈ users := by
  induction users generalizing state with
  | nil => exact ⟨searching, fun other => (if_neg not_mem_nil).symm, fun other => by simp⟩
  | cons userOp rest ih =>
    obtain ⟨userFeeds, restFeeds⟩ := forall_mem_cons.mp feeds
    obtain ⟨number, isOperand⟩ := userFeeds
    have less := (Function.mem_resultsOf_of_operand isOperand).1
    -- The longest distance of the user is further away than that of the operation.
    obtain ⟨longest, isDepth, bounded⟩ := searching.bounded op distance found
    obtain ⟨own, isOwn, further⟩ := Function.exists_depth isOperand
      (show function.depthAfter (.result op number) = some (longest + 1) from by
        rw [Function.depthAfter, isDepth]
        rfl)
    have belowOwn : max ((state.distances userOp).getD 0) (distance + 1) ≤ own := by
      refine max_le ?_ (by omega)
      cases before : state.distances userOp with
      | none => exact Nat.zero_le _
      | some known =>
        obtain ⟨userLongest, isUserDepth, userBounded⟩ := searching.bounded userOp known before
        rw [isOwn, Option.some.injEq] at isUserDepth
        exact isUserDepth ▸ userBounded
    have raised := searching.raise isOwn belowOwn fun before isBefore => by
      rw [isBefore]
      exact le_max_left _ _
    have visited : visitUser op state userOp = DistanceState.pushOp
        { state with
          distances := Function.update state.distances userOp
            (some (max ((state.distances userOp).getD 0) (distance + 1)))
          maxDistance := max state.maxDistance
            (max ((state.distances userOp).getD 0) (distance + 1)) } userOp := by
      unfold visitUser
      rw [found]
      rfl
    have updated : (visitUser op state userOp).distances = Function.update state.distances userOp
        (some (max ((state.distances userOp).getD 0) (distance + 1))) := by
      rw [visited, distances_pushOp]
    have pushed : ∀ other, other ∈ (visitUser op state userOp).ops ↔
        other ∈ state.ops ∨ other = userOp := fun other => by
      exact mem_pushOp
    rw [← visited] at raised
    obtain ⟨searched, distances, queued⟩ := ih restFeeds _ raised (by
      rw [updated, Function.update_of_ne less.ne, found])
    refine ⟨searched, fun other => (distances other).trans ?_, fun other => ?_⟩
    · rw [updated]
      by_cases same : other = userOp
      · rw [same, Function.update_self, if_pos mem_cons_self]
        split
        · rw [Option.getD_some, max_assoc, max_self]
        · rfl
      · rw [Function.update_of_ne same]
        simp only [mem_cons, same, false_or]
    · rw [foldl_cons, queued, pushed, mem_cons, or_assoc]

theorem turn_searching (lists : UseLists function) {maxDistance : Nat} {ops : List Nat}
    {distances : Nat → Option Nat}
    (searching : Searching function ⟨distances, op :: ops, maxDistance⟩)
    (relaxed : Relaxed function ⟨distances, op :: ops, maxDistance⟩)
    (sourced : Sourced function ⟨distances, op :: ops, maxDistance⟩) :
    ∃ after, ((function.resultsOf op).flatMap lists.getUsers).foldl (visitUser op)
        ⟨distances, ops, maxDistance⟩ = after ∧
      Searching function after ∧ Relaxed function after ∧ Sourced function after ∧
      Worklist.weight function.size after.ops.toFinset <
        Worklist.weight function.size (op :: ops).toFinset := by
  obtain ⟨fresh, nodup⟩ := nodup_cons.mp searching.nodup
  have popped : Searching function ⟨distances, ops, maxDistance⟩ :=
    ⟨nodup, searching.bounded, (forall_mem_cons.mp searching.queued).2, searching.atMost,
      searching.reached⟩
  obtain ⟨distance, found⟩ : ∃ distance, distances op = some distance :=
    Option.ne_none_iff_exists'.mp (searching.queued op mem_cons_self)
  obtain ⟨searched, updated, queued⟩ := foldl_visitUser
    ((function.resultsOf op).flatMap lists.getUsers)
    (fun userOp mem => (mem_users_of_op lists).mp mem) _ popped found
  refine ⟨_, rfl, searched, ?_, ?_, ?_⟩
  · intro other unqueued known isKnown userOp feeds
    rw [queued, not_or] at unqueued
    rw [updated, if_neg unqueued.2] at isKnown
    rw [updated]
    by_cases isUser : userOp ∈ (function.resultsOf op).flatMap lists.getUsers
    · rw [if_pos isUser]
      refine ⟨_, rfl, ?_⟩
      by_cases same : other = op
      · have value : known = distance := by
          rw [same] at isKnown
          exact Option.some.inj (isKnown.symm.trans found)
        rw [value]
        exact le_max_right _ _
      · obtain ⟨further, isFurther, least⟩ := relaxed other
          (fun mem => (mem_cons.mp mem).elim same unqueued.1) known isKnown userOp feeds
        have before : (distances userOp).getD 0 = further := by
          rw [show distances userOp = some further from isFurther, Option.getD_some]
        exact (before ▸ least).trans (le_max_left _ _)
    · rw [if_neg isUser]
      refine relaxed other (fun mem => ?_) known isKnown userOp feeds
      rcases mem_cons.mp mem with rfl | inQueue
      · exact isUser ((mem_users_of_op lists).mpr feeds)
      · exact unqueued.1 inQueue
  · intro other idx mem
    rw [updated]
    split
    · exact Option.some_ne_none _
    · exact sourced other idx mem
  · rw [toFinset_cons]
    have apart : op ∉ ops.toFinset := fun mem => fresh (mem_toFinset.mp mem)
    have above : ∀ other ∈ ((function.resultsOf op).flatMap lists.getUsers).toFinset,
        op < other ∧ other < function.size := fun other mem =>
      ((mem_users_of_op lists).mp (mem_toFinset.mp mem)).lt
    refine Worklist.weight_lt_of_replaced apart above fun other mem => ?_
    rw [Finset.mem_union, mem_toFinset, mem_toFinset]
    exact (queued other).mp (mem_toFinset.mp mem)

theorem propagateDistances_searching (lists : UseLists function) (fuel : Nat)
    (state : DistanceState) (searching : Searching function state)
    (relaxed : Relaxed function state) (sourced : Sourced function state)
    (enough : Worklist.weight function.size state.ops.toFinset < fuel) :
    ∃ final, propagateDistances lists fuel state = some final ∧ final.ops = [] ∧
      Searching function final ∧ Relaxed function final ∧ Sourced function final := by
  induction fuel generalizing state with
  | zero => exact absurd enough (not_lt_zero _)
  | succ fuel ih =>
    obtain ⟨distances, ops, maxDistance⟩ := state
    cases ops with
    | nil => exact ⟨_, rfl, rfl, searching, relaxed, sourced⟩
    | cons op ops =>
      obtain ⟨after, turned, searched, relaxedAfter, sourcedAfter, lighter⟩ :=
        turn_searching lists searching relaxed sourced
      obtain ⟨final, result, rest⟩ := ih after searched relaxedAfter sourcedAfter
        (by dsimp only at enough; omega)
      refine ⟨final, ?_, rest⟩
      rw [propagateDistances, turned]
      exact result

/-! ### The distances found -/

/-- With the queue empty, all distances are the longest ones. -/
theorem distances_eq_depth (searching : Searching function state) (relaxed : Relaxed function state)
    (sourced : Sourced function state) (empty : state.ops = []) :
    state.distances = function.depth := by
  funext op
  induction op using Nat.strong_induction_on with
  | _ op ih =>
    cases isDepth : function.depth op with
    | none =>
      cases found : state.distances op with
      | none => rfl
      | some distance =>
        obtain ⟨longest, isLongest, -⟩ := searching.bounded op distance found
        rw [isDepth] at isLongest
        cases isLongest
    | some longest =>
      -- The operand that is furthest away has put the operation where it is.
      obtain ⟨⟨operand, mem, puts⟩, -⟩ := depth_eq_some_iff.mp isDepth
      have least : ∃ distance, state.distances op = some distance ∧ longest ≤ distance := by
        cases operand with
        | blockArgument idx =>
          cases puts
          obtain ⟨distance, found⟩ := Option.ne_none_iff_exists'.mp (sourced op idx mem)
          exact ⟨distance, found, zero_le _⟩
        | result parentOp number =>
          have before := (mem_resultsOf_of_operand mem).1
          obtain ⟨parentDepth, isParentDepth, rfl⟩ := Option.map_eq_some_iff.mp puts
          refine relaxed parentOp ?_ parentDepth ?_ op ⟨number, mem⟩
          · rw [empty]
            exact not_mem_nil
          · rw [ih parentOp before, isParentDepth]
      obtain ⟨distance, found, further⟩ := least
      obtain ⟨other, isOther, bounded⟩ := searching.bounded op distance found
      rw [isDepth, Option.some.injEq] at isOther
      rw [found, Option.some.injEq]
      omega

theorem depth_eq_none_of_le (outside : function.size ≤ op) : function.depth op = none := by
  rw [depth_eq, operandsOf_eq_nil outside]
  rfl

theorem maxDistance_eq_maxDepth (searching : Searching function state)
    (distances : state.distances = function.depth) : state.maxDistance = function.maxDepth := by
  have mem_iff : ∀ distance, distance ∈ (range function.size).filterMap function.depth ↔
      ∃ op, function.depth op = some distance := by
    intro distance
    rw [mem_filterMap]
    refine exists_congr fun op => and_iff_right_of_imp fun found => mem_range.mpr ?_
    by_contra outside
    rw [depth_eq_none_of_le (not_lt.mp outside)] at found
    cases found
  have atMost := searching.atMost
  have reached := searching.reached
  rw [distances] at atMost reached
  unfold maxDepth
  cases greatest : ((range function.size).filterMap function.depth).max? with
  | none =>
    rw [max?_eq_none_iff] at greatest
    rcases reached with zero | ⟨op, distance, found, -⟩
    · exact zero
    · have mem := (mem_iff distance).mpr ⟨op, found⟩
      rw [greatest] at mem
      exact absurd mem not_mem_nil
  | some largest =>
    rw [max?_eq_some_iff] at greatest
    obtain ⟨mem, above⟩ := greatest
    obtain ⟨op, found⟩ := (mem_iff largest).mp mem
    refine le_antisymm ?_ (atMost op largest found)
    rcases reached with zero | ⟨other, distance, isDistance, least⟩
    · rw [zero]
      exact zero_le _
    · exact least.trans (above distance ((mem_iff distance).mpr ⟨other, isDistance⟩))

theorem getOpDistances_eq (lists : UseLists function) :
    ∃ state, getOpDistances lists = some state ∧ state.distances = function.depth ∧
      state.maxDistance = function.maxDepth := by
  obtain ⟨searching, relaxed, sourced⟩ := startDistances_searching lists
  have inside : ∀ op ∈ (startDistances lists).ops.toFinset, op < function.size := by
    intro op mem
    by_contra outside
    obtain ⟨distance, found⟩ := Option.ne_none_iff_exists'.mp
      (searching.queued op (mem_toFinset.mp mem))
    obtain ⟨longest, isDepth, -⟩ := searching.bounded op distance found
    rw [depth_eq_none_of_le (not_lt.mp outside)] at isDepth
    cases isDepth
  have light := Worklist.weight_lt inside
  obtain ⟨final, result, empty, searched, relaxedAfter, sourcedAfter⟩ :=
    propagateDistances_searching lists (2 ^ (function.size + 1)) _ searching relaxed sourced
      (by rw [pow_succ]; omega)
  have distances := distances_eq_depth searched relaxedAfter sourcedAfter empty
  exact ⟨final, result, distances, maxDistance_eq_maxDepth searched distances⟩

end

open Option

variable {Content : Type}

/-! ### Environments -/

/-- What is known in the first environment is the same in the second one. -/
def Environment.Agrees (environment other : Environment Content) : Prop :=
  ∀ value content, environment value = some content → other value = some content

section

variable {environment other : Environment Content} {contents : List Content} {values : List Value}

theorem mapM_cons_eq_some {value : Value} {rest : List Value} :
    (value :: rest).mapM environment = some contents ↔
      ∃ content others, environment value = some content ∧ rest.mapM environment = some others ∧
        contents = content :: others := by
  rw [mapM_cons]
  simp only [Option.bind_eq_bind, Option.bind_eq_some_iff, Option.pure_def, Option.some.injEq]
  exact ⟨fun ⟨content, found, others, rest, same⟩ => ⟨content, others, found, rest, same.symm⟩,
    fun ⟨content, others, found, rest, same⟩ => ⟨content, found, others, rest, same.symm⟩⟩

theorem exists_mapM (known : ∀ value ∈ values, environment value ≠ none) :
    ∃ contents, values.mapM environment = some contents := by
  induction values with
  | nil => exact ⟨[], rfl⟩
  | cons value rest ih =>
    obtain ⟨isKnown, restKnown⟩ := forall_mem_cons.mp known
    obtain ⟨content, found⟩ := ne_none_iff_exists'.mp isKnown
    obtain ⟨others, rests⟩ := ih restKnown
    exact ⟨content :: others, mapM_cons_eq_some.mpr ⟨content, others, found, rests, rfl⟩⟩

theorem mapM_eq_of_agreeing (same : ∀ value ∈ values, environment value = other value) :
    values.mapM environment = values.mapM other := by
  induction values with
  | nil => rfl
  | cons first rest ih =>
    obtain ⟨isFirst, isRest⟩ := forall_mem_cons.mp same
    rw [mapM_cons, mapM_cons, isFirst, ih isRest]

theorem Environment.Agrees.mapM (agrees : environment.Agrees other)
    (found : values.mapM environment = some contents) : values.mapM other = some contents := by
  induction values generalizing contents with
  | nil => exact found
  | cons first rest ih =>
    obtain ⟨content, others, isFirst, rests, same⟩ := mapM_cons_eq_some.mp found
    exact mapM_cons_eq_some.mpr
      ⟨content, others, agrees first content isFirst, ih rests, same⟩

theorem Environment.Agrees.bind (agrees : environment.Agrees other)
    (found : values.mapM other = some contents) :
    (environment.bind values contents).Agrees other ∧
      (∀ value, environment value ≠ none → environment.bind values contents value ≠ none) ∧
      ∀ value ∈ values, environment.bind values contents value ≠ none := by
  induction values generalizing environment contents with
  | nil => exact ⟨agrees, fun _ known => known, forall_mem_nil _⟩
  | cons first rest ih =>
    obtain ⟨content, others, isFirst, rests, rfl⟩ := mapM_cons_eq_some.mp found
    have updated : Environment.Agrees (Function.update environment first (some content)) other := by
      intro value known
      by_cases same : value = first
      · rw [same, Function.update_self]
        rintro ⟨⟩
        exact isFirst
      · rw [Function.update_of_ne same]
        exact agrees value known
    obtain ⟨after, keeps, binds⟩ := ih updated rests
    refine ⟨after, fun value known => keeps value ?_, forall_mem_cons.mpr ⟨keeps first ?_, binds⟩⟩
    · by_cases same : value = first
      · rw [same, Function.update_self]
        exact some_ne_none _
      · rw [Function.update_of_ne same]
        exact known
    · rw [Function.update_self]
      exact some_ne_none _

end

/-! ### The main function -/

section

variable {function : Function} {meaning : Meaning Content} {arguments : List Content}
  {environment other : Environment Content}

theorem execute_eq (meaning : Meaning Content) {op : Nat} {contents : List Content}
    (found : (function.operandsOf op).mapM environment = some contents) :
    ∃ after, function.execute meaning environment op = some after ∧
      (∀ number, Value.result op number ∈ function.resultsOf op →
        after (.result op number) = some (meaning (function.keyOf op) contents number)) ∧
      ∀ value, value ∉ function.resultsOf op → after value = environment value := by
  refine ⟨_, by unfold execute; rw [found]; rfl, fun number mem => ?_,
    fun value apart => if_neg apart⟩
  exact if_pos mem

/-- The operations up to a place have been executed. -/
structure Solves (function : Function) (meaning : Meaning Content) (arguments : List Content)
    (bound : Nat) (environment : Environment Content) : Prop where
  arguments : ∀ idx, environment (.blockArgument idx) = arguments[idx]?
  results : ∀ op < bound, ∃ contents, (function.operandsOf op).mapM environment = some contents ∧
    ∀ number, Value.result op number ∈ function.resultsOf op →
      environment (.result op number) = some (meaning (function.keyOf op) contents number)

section

variable {bound : Nat} (solves : Solves function meaning arguments bound environment)
  (enough : arguments.length = function.argumentTypes.length)
include solves enough

/-- A value that is defined before a place is known when it is reached. -/
theorem Solves.ne_none {value : Value}
    (defined : value.DefinedBefore function.argumentTypes function.operations bound) :
    environment value ≠ none := by
  cases value with
  | blockArgument idx =>
    have inside : idx < arguments.length := enough.symm ▸ (show idx <
      function.argumentTypes.length from defined)
    rw [solves.arguments, getElem?_eq_getElem inside]
    exact some_ne_none _
  | result op number =>
    obtain ⟨before, inside⟩ := defined
    obtain ⟨contents, -, results⟩ := solves.results op before
    have mem : Value.result op number ∈ function.resultsOf op := mem_resultsOf.mpr
      ⟨number, (length_resultTypesOf op).symm ▸ inside, rfl⟩
    rw [results number mem]
    exact some_ne_none _

theorem Solves.step :
    ∃ after, function.execute meaning environment bound = some after ∧
      Solves function meaning arguments (bound + 1) after := by
  obtain ⟨contents, found⟩ := exists_mapM fun operand mem => solves.ne_none enough
    (definedBefore_of_mem_operandsOf mem).2
  obtain ⟨after, executed, results, kept⟩ := execute_eq meaning found
  -- Operands of operations up to here are no results of this one.
  have agrees : ∀ op ≤ bound, ∀ operand ∈ function.operandsOf op,
      after operand = environment operand := by
    intro op before operand mem
    refine kept operand fun isResult => ?_
    obtain ⟨number, -, rfl⟩ := mem_resultsOf.mp isResult
    have less := (mem_resultsOf_of_operand mem).1
    omega
  have same : ∀ op ≤ bound, (function.operandsOf op).mapM after =
      (function.operandsOf op).mapM environment := fun op before =>
    mapM_eq_of_agreeing (agrees op before)
  refine ⟨after, executed, fun idx => ?_, fun op before => ?_⟩
  · rw [kept _ fun isResult => ?_, solves.arguments]
    obtain ⟨number, -, absurdity⟩ := mem_resultsOf.mp isResult
    cases absurdity
  · rw [same op (Nat.le_of_lt_succ before)]
    rcases Nat.lt_succ_iff_lt_or_eq.mp before with less | rfl
    · obtain ⟨others, isFound, othersResults⟩ := solves.results op less
      refine ⟨others, isFound, fun number mem => ?_⟩
      rw [kept _ fun isResult => ?_, othersResults number mem]
      obtain ⟨otherNumber, -, absurdity⟩ := mem_resultsOf.mp isResult
      cases absurdity
      exact Nat.lt_irrefl _ less
    · exact ⟨contents, found, results⟩

end

theorem exists_solves (function : Function) (meaning : Meaning Content) (arguments : List Content)
    (enough : arguments.length = function.argumentTypes.length) :
    ∃ environment, function.executeAll meaning (List.range function.size)
        (Function.entry arguments) = some environment ∧
      Solves function meaning arguments function.size environment := by
  have each : ∀ bound, ∃ environment, function.executeAll meaning (List.range bound)
      (entry arguments) = some environment ∧
        Solves function meaning arguments bound environment := by
    intro bound
    induction bound with
    | zero => exact ⟨_, rfl, fun _ => rfl, nofun⟩
    | succ bound ih =>
      obtain ⟨environment, executed, solves⟩ := ih
      obtain ⟨after, stepped, solvesAfter⟩ := solves.step enough
      refine ⟨after, ?_, solvesAfter⟩
      unfold executeAll at executed ⊢
      rw [range_succ, foldlM_append, executed]
      show (function.execute meaning environment bound).bind _ = _
      rw [stepped]
      rfl
  exact each function.size

/-! ### Operations that are executed again -/

theorem executeAll_agrees (solves : Solves function meaning arguments function.size other)
    (ops : List Nat) (inside : ∀ op ∈ ops, op < function.size) (agrees : environment.Agrees other)
    (closed : ∀ before op after, ops = before ++ op :: after →
      ∀ operand ∈ function.operandsOf op, environment operand ≠ none ∨
        ∃ parentOp ∈ before, ∃ number, operand = .result parentOp number) :
    ∃ after, function.executeAll meaning ops environment = some after ∧ after.Agrees other ∧
      (∀ value, environment value ≠ none → after value ≠ none) ∧
      ∀ op ∈ ops, ∀ value ∈ function.resultsOf op, after value ≠ none := by
  induction ops generalizing environment with
  | nil =>
    exact ⟨environment, rfl, agrees, fun _ known => known,
      forall_mem_nil _⟩
  | cons op rest ih =>
    obtain ⟨opInside, restInside⟩ := forall_mem_cons.mp inside
    have known : ∀ operand ∈ function.operandsOf op, environment operand ≠ none := by
      intro operand mem
      rcases closed [] op rest rfl operand mem with isKnown | ⟨parentOp, absurdity, -⟩
      · exact isKnown
      · exact absurd absurdity not_mem_nil
    obtain ⟨contents, found⟩ := exists_mapM known
    obtain ⟨middle, executed, results, kept⟩ := execute_eq meaning found
    obtain ⟨others, isFound, isResult⟩ := solves.results op opInside
    have sameContents : others = contents := some.inj (isFound.symm.trans (agrees.mapM found))
    have middleAgrees : middle.Agrees other := by
      intro value content isContent
      by_cases mem : value ∈ function.resultsOf op
      · obtain ⟨number, -, rfl⟩ := mem_resultsOf.mp mem
        rw [isResult number mem, sameContents, ← results number mem]
        exact isContent
      · exact agrees value content ((kept value mem).symm.trans isContent)
    have stays : ∀ value, environment value ≠ none → middle value ≠ none := by
      intro value isKnown
      by_cases mem : value ∈ function.resultsOf op
      · obtain ⟨number, -, rfl⟩ := mem_resultsOf.mp mem
        rw [results number mem]
        exact some_ne_none _
      · rw [kept value mem]
        exact isKnown
    have defined : ∀ value ∈ function.resultsOf op, middle value ≠ none := by
      intro value mem
      obtain ⟨number, -, rfl⟩ := mem_resultsOf.mp mem
      rw [results number mem]
      exact some_ne_none _
    obtain ⟨after, restExecuted, afterAgrees, keeps, gives⟩ :=
      ih restInside middleAgrees (by
        intro before later following same operand mem
        rcases closed (op :: before) later following (by rw [same, cons_append]) operand mem
          with isKnown | ⟨parentOp, inBefore, number, rfl⟩
        · exact .inl (stays operand isKnown)
        · rcases mem_cons.mp inBefore with rfl | inRest
          · exact .inl (defined _ (mem_resultsOf_of_operand mem).2)
          · exact .inr ⟨parentOp, inRest, number, rfl⟩)
    refine ⟨after, ?_, afterAgrees, fun value isKnown => keeps value (stays value isKnown),
      forall_mem_cons.mpr ⟨fun value mem => keeps value (defined value mem), gives⟩⟩
    unfold executeAll at restExecuted ⊢
    rw [foldlM_cons, executed]
    exact restExecuted

end

end NpuPlugin.FunctionOutlining
