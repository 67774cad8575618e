/-
This file proves when the calls of the parts compute what the main function computes: exactly when
the values it returns are outputs of parts, and a copied operation takes none that its part keeps.
-/

import NpuPlugin.FunctionOutlining.NaiveSplitter

namespace NpuPlugin.FunctionOutlining

open List Nat Option

/-! ### Preprocessing operations -/

namespace Function

variable {function : Function}

theorem hasBlockArgParentWithin_eq {bound other op : Nat} (enough : op < bound)
    (otherEnough : op < other) :
    function.hasBlockArgParentWithin bound op = function.hasBlockArgParentWithin other op := by
  induction op using Nat.strong_induction_on generalizing bound other with
  | _ op ih =>
    obtain ⟨bound, rfl⟩ : ∃ rest, bound = rest + 1 := ⟨bound - 1, by omega⟩
    obtain ⟨other, rfl⟩ : ∃ rest, other = rest + 1 := ⟨other - 1, by omega⟩
    refine congrArg (function.isPreprocessingOp op && ·) ?_
    cases first : (function.operandsOf op).head? with
    | none => rfl
    | some operand =>
      cases operand with
      | blockArgument idx => rfl
      | result parentOp number =>
        have before := (mem_resultsOf_of_operand (mem_of_head? first)).1
        exact ih parentOp before (by omega) (by omega)

/-- A preprocessing operation of a block argument is at some distance. -/
theorem depth_ne_none_of_preprocessing {op : Nat}
    (preprocessing : function.isPreprocessingOpAndHasBlockArgParent op = true) :
    function.depth op ≠ none := by
  induction op using Nat.strong_induction_on with
  | _ op ih =>
    unfold isPreprocessingOpAndHasBlockArgParent at preprocessing
    rw [hasBlockArgParentWithin, Bool.and_eq_true] at preprocessing
    obtain ⟨-, parent⟩ := preprocessing
    cases first : (function.operandsOf op).head? with
    | none =>
      rw [first] at parent
      cases parent
    | some operand =>
      rw [first] at parent
      have mem := mem_of_head? first
      have put : ∃ distance, function.depthAfter operand = some distance := by
        cases operand with
        | blockArgument idx => exact ⟨0, rfl⟩
        | result parentOp number =>
          have before := (mem_resultsOf_of_operand mem).1
          have isParent : function.isPreprocessingOpAndHasBlockArgParent parentOp = true :=
            (hasBlockArgParentWithin_eq (lt_succ_self parentOp) before).trans parent
          obtain ⟨distance, found⟩ := ne_none_iff_exists'.mp (ih parentOp before isParent)
          exact ⟨distance + 1, by rw [depthAfter, found]; rfl⟩
      obtain ⟨distance, found⟩ := put
      obtain ⟨own, isDepth, -⟩ := exists_depth mem found
      rw [isDepth]
      exact some_ne_none _

theorem Feeds.depth_lt {op userOp distance : Nat} (feeds : function.Feeds op userOp)
    (found : function.depth op = some distance) :
    ∃ further, function.depth userOp = some further ∧ distance < further := by
  obtain ⟨number, mem⟩ := feeds
  exact exists_depth mem (show function.depthAfter (.result op number) = some (distance + 1) from
    by rw [depthAfter, found]; rfl)

end Function

/-! ### The operations of a part -/

/-- A preprocessing operation of another part that is copied into a part: an operation of the part,
or another copied one, uses it. -/
inductive Copied (function : Function) (partOf : Nat → Option Nat) (part : Nat) : Nat → Prop
  | direct {op userOp : Nat} (feeds : function.Feeds op userOp) (own : partOf userOp = some part)
      (preprocessing : function.isPreprocessingOpAndHasBlockArgParent op = true)
      (elsewhere : partOf op ≠ some part) : Copied function partOf part op
  | chain {op userOp : Nat} (feeds : function.Feeds op userOp)
      (user : Copied function partOf part userOp)
      (preprocessing : function.isPreprocessingOpAndHasBlockArgParent op = true)
      (elsewhere : partOf op ≠ some part) : Copied function partOf part op

/-- An operation of a part, one that depends on no block argument, or a copied one. -/
def Wanted (function : Function) (partOf : Nat → Option Nat) (part op : Nat) : Prop :=
  op < function.size ∧
    (partOf op = some part ∨ partOf op = none ∨ Copied function partOf part op)

/-- A value that a part cannot compute: a block argument, or a result of an operation of another
part that is not copied. -/
def External (function : Function) (partOf : Nat → Option Nat) (part : Nat) : Value → Prop
  | .blockArgument _ => True
  | .result parentOp _ => (∃ parentPart, partOf parentOp = some parentPart ∧ parentPart ≠ part) ∧
      function.isPreprocessingOpAndHasBlockArgParent parentOp = false

/-- An input, or a result of an operation before. -/
def Available (inputs : List Value) (before : List Nat) (value : Value) : Prop :=
  value ∈ inputs ∨ ∃ op ∈ before, ∃ number, value = .result op number

theorem Available.mono {inputs inputsAfter : List Value} {before beforeAfter : List Nat}
    {value : Value} (available : Available inputs before value) (moreInputs : inputs ⊆ inputsAfter)
    (more : before ⊆ beforeAfter) : Available inputsAfter beforeAfter value :=
  available.imp (fun mem => moreInputs mem)
    fun ⟨op, mem, number, same⟩ => ⟨op, more mem, number, same⟩

/-- What a part holds while it grows. -/
structure Sliced (function : Function) (partOf : Nat → Option Nat) (part : Nat) (slice : IRSlice) :
    Prop where
  closed : ∀ before op after, slice.operations = before ++ op :: after →
    ∀ operand ∈ function.operandsOf op, Available slice.inputs before operand
  inputs : ∀ input ∈ slice.inputs, External function partOf part input ∧
    ∃ op, Wanted function partOf part op ∧ input ∈ function.operandsOf op
  operations : ∀ op ∈ slice.operations, Wanted function partOf part op

/-- Inputs and operations are added behind the others. -/
structure Extends (slice after : IRSlice) : Prop where
  inputs : slice.inputs ⊆ after.inputs
  operations : slice.operations ⊆ after.operations
  outputs : after.outputs = slice.outputs

theorem Extends.refl (slice : IRSlice) : Extends slice slice :=
  ⟨List.Subset.refl _, List.Subset.refl _, rfl⟩

theorem Extends.trans {slice middle after : IRSlice} (first : Extends slice middle)
    (second : Extends middle after) : Extends slice after :=
  ⟨List.Subset.trans first.inputs second.inputs,
    List.Subset.trans first.operations second.operations, second.outputs.trans first.outputs⟩

theorem sliced_empty (function : Function) (partOf : Nat → Option Nat) (part : Nat) :
    Sliced function partOf part IRSlice.empty :=
  ⟨fun _ _ _ same => absurd same.symm (append_ne_nil_of_right_ne_nil _ (cons_ne_nil _ _)),
    nofun, nofun⟩

section

variable {function : Function} {partOf : Nat → Option Nat} {part : Nat} {slice : IRSlice}

theorem Sliced.push (sliced : Sliced function partOf part slice) {op : Nat}
    (wanted : Wanted function partOf part op) (available : ∀ operand ∈ function.operandsOf op,
      Available slice.inputs slice.operations operand) :
    Sliced function partOf part { slice with operations := slice.operations ++ [op] } where
  closed before other after same := by
    rcases eq_nil_or_concat after with rfl | ⟨inner, last, rfl⟩
    · obtain ⟨rfl, sameOp⟩ := append_inj' same rfl
      cases sameOp
      exact available
    · rw [concat_eq_append, ← cons_append, ← append_assoc] at same
      exact sliced.closed before other inner (append_inj' same rfl).1
  inputs := sliced.inputs
  operations := forall_mem_append.mpr
    ⟨sliced.operations, forall_mem_singleton.mpr wanted⟩

theorem Sliced.addInput (sliced : Sliced function partOf part slice) {input : Value} {op : Nat}
    (external : External function partOf part input) (wanted : Wanted function partOf part op)
    (uses : input ∈ function.operandsOf op) :
    Sliced function partOf part { slice with inputs := slice.inputs ++ [input] } where
  closed before other after same operand mem :=
    (sliced.closed before other after same operand mem).mono
      (subset_append_left _ _) (List.Subset.refl _)
  inputs := forall_mem_append.mpr
    ⟨sliced.inputs, forall_mem_singleton.mpr ⟨external, op, wanted, uses⟩⟩
  operations := sliced.operations

end

/-! ### Adding operations -/

namespace NaiveSplitter

variable {function : Function} {splitter : NaiveSplitter function} {part : Nat} {slice : IRSlice}

/-- The inputs have an operand exactly when the part cannot compute it. -/
theorem addOperandToSplitIfInput_cases (splitter : NaiveSplitter function) (part : Nat)
    (slice : IRSlice) (operand : Value) :
    (splitter.addOperandToSplitIfInput part slice operand = slice ∧
        (External function splitter.findSplitIdx part operand → operand ∈ slice.inputs)) ∨
      (splitter.addOperandToSplitIfInput part slice operand =
          { slice with inputs := slice.inputs ++ [operand] } ∧
        External function splitter.findSplitIdx part operand) := by
  unfold addOperandToSplitIfInput
  split
  · rename_i mem
    exact .inl ⟨rfl, fun _ => mem⟩
  · cases operand with
    | blockArgument idx => exact .inr ⟨rfl, trivial⟩
    | result parentOp number =>
      dsimp only
      cases found : splitter.findSplitIdx parentOp with
      | none =>
        refine .inl ⟨rfl, fun ⟨⟨parentPart, isPart, _⟩, _⟩ => ?_⟩
        rw [found] at isPart
        cases isPart
      | some parentPart =>
        dsimp only
        split
        · rename_i same
          refine .inl ⟨rfl, fun ⟨⟨other, isPart, different⟩, _⟩ => ?_⟩
          rw [found, some.injEq] at isPart
          exact absurd (isPart.symm.trans same) different
        · rename_i different
          split
          · rename_i preprocessing
            exact .inl ⟨rfl, fun external =>
              absurd (preprocessing.symm.trans external.2) Bool.true_eq_false.mp⟩
          · rename_i notPreprocessing
            exact .inr ⟨rfl, ⟨parentPart, found, different⟩,
              Bool.eq_false_of_not_eq_true notPreprocessing⟩

variable {op : Nat}

theorem staysInOtherSplit_iff :
    splitter.staysInOtherSplit part op = true ↔
      (∃ opPart, splitter.findSplitIdx op = some opPart ∧ opPart ≠ part) ∧
        function.isPreprocessingOpAndHasBlockArgParent op = false := by
  unfold staysInOtherSplit
  rw [Bool.and_eq_true, Bool.not_eq_true', Option.any_eq_true, and_comm]
  simp only [decide_eq_true_eq]

/-- Distances are the longest ones. -/
def Exact (splitter : NaiveSplitter function) : Prop := splitter.distances = function.depth

theorem Exact.findSplitIdx_eq_none_iff (exactly : splitter.Exact) :
    splitter.findSplitIdx op = none ↔ function.depth op = none := by
  unfold findSplitIdx
  rw [exactly, map_eq_none_iff]

theorem Exact.wanted_parent (exactly : splitter.Exact) {parentOp : Nat}
    (wanted : Wanted function splitter.findSplitIdx part op) (feeds : function.Feeds parentOp op)
    (moves : splitter.staysInOtherSplit part parentOp ≠ true) :
    Wanted function splitter.findSplitIdx part parentOp := by
  refine ⟨feeds.lt.1.trans feeds.lt.2, ?_⟩
  by_cases own : splitter.findSplitIdx parentOp = some part
  · exact .inl own
  · cases preprocessing : function.isPreprocessingOpAndHasBlockArgParent parentOp with
    | true =>
      rcases wanted.2 with isOwn | nowhere | copied
      · exact .inr (.inr (.direct feeds isOwn preprocessing own))
      · obtain ⟨distance, found⟩ := ne_none_iff_exists'.mp
          (Function.depth_ne_none_of_preprocessing preprocessing)
        obtain ⟨further, isDepth, -⟩ := feeds.depth_lt found
        rw [exactly.findSplitIdx_eq_none_iff, isDepth] at nowhere
        cases nowhere
      · exact .inr (.inr (.chain feeds copied preprocessing own))
    | false =>
      refine .inr (.inl ?_)
      cases found : splitter.findSplitIdx parentOp with
      | none => rfl
      | some parentPart =>
        rw [found, some.injEq] at own
        exact absurd (staysInOtherSplit_iff.mpr ⟨⟨parentPart, found, own⟩, preprocessing⟩) moves

/-- What adding an operation with its parents does. -/
def AddsParents (splitter : NaiveSplitter function) (part op : Nat) (slice after : IRSlice) :
    Prop :=
  Sliced function splitter.findSplitIdx part after ∧ Extends slice after ∧
    (splitter.staysInOtherSplit part op = true ∨ op ∈ after.operations)

theorem Exact.foldl_operands (exactly : splitter.Exact)
    (wanted : Wanted function splitter.findSplitIdx part op) (parents : IRSlice → Nat → IRSlice)
    (adds : ∀ slice parentOp, parentOp < op → Sliced function splitter.findSplitIdx part slice →
      (splitter.staysInOtherSplit part parentOp ≠ true →
        Wanted function splitter.findSplitIdx part parentOp) →
      splitter.AddsParents part parentOp slice (parents slice parentOp)) (operands : List Value)
    (subset : operands ⊆ function.operandsOf op)
    (sliced : Sliced function splitter.findSplitIdx part slice) :
    ∃ after, operands.foldl (splitter.visitOperand part parents) slice = after ∧
      Sliced function splitter.findSplitIdx part after ∧ Extends slice after ∧
      ∀ operand ∈ operands, Available after.inputs after.operations operand := by
  induction operands generalizing slice with
  | nil => exact ⟨slice, rfl, sliced, Extends.refl _, forall_mem_nil _⟩
  | cons operand rest ih =>
    obtain ⟨mem, restSubset⟩ := cons_subset.mp subset
    rw [foldl_cons]
    -- At first the operand becomes an input when the part cannot compute it.
    obtain ⟨withInput, added, inputSliced, inputExtends, isInput⟩ : ∃ withInput,
        splitter.addOperandToSplitIfInput part slice operand = withInput ∧
        Sliced function splitter.findSplitIdx part withInput ∧ Extends slice withInput ∧
        (External function splitter.findSplitIdx part operand → operand ∈ withInput.inputs) := by
      rcases addOperandToSplitIfInput_cases splitter part slice operand with
        ⟨same, isInput⟩ | ⟨same, external⟩
      · exact ⟨slice, same, sliced, Extends.refl _, isInput⟩
      · exact ⟨_, same, sliced.addInput external wanted mem,
          ⟨subset_append_left _ _, List.Subset.refl _, rfl⟩,
          fun _ => mem_append_right _ (mem_singleton_self _)⟩
    have finish : ∀ middle, Sliced function splitter.findSplitIdx part middle →
        Extends withInput middle → Available middle.inputs middle.operations operand →
        ∃ after, rest.foldl (splitter.visitOperand part parents) middle = after ∧
          Sliced function splitter.findSplitIdx part after ∧ Extends slice after ∧
          ∀ other ∈ operand :: rest, Available after.inputs after.operations other := by
      intro middle middleSliced middleExtends available
      obtain ⟨after, folded, afterSliced, afterExtends, each⟩ := ih restSubset middleSliced
      exact ⟨after, folded, afterSliced, (inputExtends.trans middleExtends).trans afterExtends,
        forall_mem_cons.mpr
          ⟨available.mono afterExtends.inputs afterExtends.operations, each⟩⟩
    unfold visitOperand at finish ⊢
    rw [added]
    cases operand with
    | blockArgument idx =>
      exact finish withInput inputSliced (Extends.refl _) (.inl (isInput trivial))
    | result parentOp number =>
      have feeds : function.Feeds parentOp op := ⟨number, mem⟩
      obtain ⟨parentSliced, parentExtends, found⟩ := adds withInput parentOp feeds.lt.1 inputSliced
        (exactly.wanted_parent wanted feeds)
      refine finish _ parentSliced parentExtends ?_
      rcases found with stays | covered
      · exact .inl (parentExtends.inputs (isInput (staysInOtherSplit_iff.mp stays)))
      · exact .inr ⟨parentOp, covered, number, rfl⟩

theorem Exact.addParentOpsWithin (exactly : splitter.Exact) (depth : Nat) (enough : op < depth)
    (sliced : Sliced function splitter.findSplitIdx part slice)
    (wanted : splitter.staysInOtherSplit part op ≠ true →
      Wanted function splitter.findSplitIdx part op) :
    splitter.AddsParents part op slice (splitter.addParentOpsWithin part depth slice op) := by
  induction depth generalizing op slice with
  | zero => exact absurd enough (not_lt_zero _)
  | succ depth ih =>
    rw [NaiveSplitter.addParentOpsWithin]
    split
    · rename_i covered
      exact ⟨sliced, Extends.refl _, .inr covered⟩
    · split
      · rename_i stays
        exact ⟨sliced, Extends.refl _, .inl stays⟩
      · rename_i moves
        obtain ⟨after, folded, afterSliced, extends', available⟩ := exactly.foldl_operands
          (wanted moves) (splitter.addParentOpsWithin part depth)
          (fun slice parentOp before parentSliced parentWanted =>
            ih (by omega) parentSliced parentWanted)
          (function.operandsOf op) (List.Subset.refl _) sliced
        rw [folded]
        exact ⟨afterSliced.push (wanted moves) available,
          ⟨extends'.inputs, subset_append_of_subset_left _ extends'.operations,
            extends'.outputs⟩, .inr (mem_append_right _ (mem_singleton_self _))⟩

/-! ### Outputs -/

/-- Which values a part gives back, of the operations up to some place. -/
def OutputsUpTo (splitter : NaiveSplitter function) (part bound : Nat) (slice : IRSlice) : Prop :=
  ∀ value, value ∈ slice.outputs ↔ ∃ op < bound, splitter.findSplitIdx op = some part ∧
    value ∈ function.resultsOf op ∧ splitter.isOutput part value = true ∧
      function.isPreprocessingOpAndHasBlockArgParent op = false

theorem foldl_addResultToSplitIfOutput (splitter : NaiveSplitter function) (part op : Nat)
    (results : List Value) (slice : IRSlice) :
    ∃ outputs, results.foldl (splitter.addResultToSplitIfOutput part op) slice =
        { slice with outputs := outputs } ∧
      ∀ value, value ∈ outputs ↔ value ∈ slice.outputs ∨ value ∈ results ∧
        splitter.isOutput part value = true ∧
          function.isPreprocessingOpAndHasBlockArgParent op = false := by
  induction results generalizing slice with
  | nil =>
    exact ⟨slice.outputs, rfl, fun value =>
      (or_iff_left fun found => absurd found.1 not_mem_nil).symm⟩
  | cons result rest ih =>
    have first : ∃ outputs, splitter.addResultToSplitIfOutput part op slice result =
        { slice with outputs := outputs } ∧
        ∀ value, value ∈ outputs ↔ value ∈ slice.outputs ∨ value = result ∧
          splitter.isOutput part value = true ∧
            function.isPreprocessingOpAndHasBlockArgParent op = false := by
      unfold addResultToSplitIfOutput
      split
      · rename_i mem
        refine ⟨slice.outputs, rfl, fun value => (or_iff_left_of_imp ?_).symm⟩
        rintro ⟨rfl, -⟩
        exact mem
      · split
        · rename_i gives
          rw [Bool.and_eq_true, Bool.not_eq_true'] at gives
          refine ⟨slice.outputs ++ [result], rfl, fun value => ?_⟩
          rw [mem_append, mem_singleton]
          refine or_congr_right ⟨?_, And.left⟩
          rintro rfl
          exact ⟨rfl, gives⟩
        · rename_i keeps
          refine ⟨slice.outputs, rfl, fun value => (or_iff_left ?_).symm⟩
          rintro ⟨rfl, gives⟩
          exact keeps (by rw [Bool.and_eq_true, Bool.not_eq_true']; exact gives)
    obtain ⟨outputs, added, firstIff⟩ := first
    obtain ⟨outputsAfter, folded, restIff⟩ := ih { slice with outputs := outputs }
    refine ⟨outputsAfter, by rw [foldl_cons, added, folded], fun value => ?_⟩
    rw [restIff, firstIff, mem_cons]
    tauto

/-! ### The walk -/

theorem Exact.visitOp (exactly : splitter.Exact)
    (sliced : Sliced function splitter.findSplitIdx part slice) (inside : op < function.size)
    (own : splitter.findSplitIdx op = some part) :
    ∃ covered outputs, splitter.visitOp part slice op = { covered with outputs := outputs } ∧
      Sliced function splitter.findSplitIdx part covered ∧ Extends slice covered ∧
      op ∈ covered.operations ∧
      ∀ value, value ∈ outputs ↔ value ∈ slice.outputs ∨ value ∈ function.resultsOf op ∧
        splitter.isOutput part value = true ∧
          function.isPreprocessingOpAndHasBlockArgParent op = false := by
  have wanted : Wanted function splitter.findSplitIdx part op := ⟨inside, .inl own⟩
  obtain ⟨covered, added, coveredSliced, extends', mem⟩ : ∃ covered,
      (if op ∈ slice.operations then slice
        else
          let withOperands := (function.operandsOf op).foldl
            (splitter.visitOperand part (splitter.addParentOpsToSplit part)) slice
          { withOperands with operations := withOperands.operations ++ [op] }) = covered ∧
      Sliced function splitter.findSplitIdx part covered ∧ Extends slice covered ∧
      op ∈ covered.operations := by
    split
    · rename_i known
      exact ⟨slice, rfl, sliced, Extends.refl _, known⟩
    · obtain ⟨after, folded, afterSliced, extends', available⟩ := exactly.foldl_operands wanted
        (splitter.addParentOpsToSplit part)
        (fun slice parentOp _ parentSliced parentWanted =>
          exactly.addParentOpsWithin (parentOp + 1) (lt_succ_self parentOp) parentSliced
            parentWanted)
        (function.operandsOf op) (List.Subset.refl _) sliced
      rw [folded]
      exact ⟨_, rfl, afterSliced.push wanted available,
        ⟨extends'.inputs, subset_append_of_subset_left _ extends'.operations,
          extends'.outputs⟩, mem_append_right _ (mem_singleton_self _)⟩
  obtain ⟨outputs, folded, outputsIff⟩ := foldl_addResultToSplitIfOutput splitter part op
    (function.resultsOf op) covered
  refine ⟨covered, outputs, ?_, coveredSliced, extends', mem, fun value => ?_⟩
  · unfold NaiveSplitter.visitOp
    rw [added, folded]
  · rw [outputsIff, extends'.outputs]

/-- What all parts hold when the walk has come to some place. -/
structure Walked (splitter : NaiveSplitter function) (bound : Nat) (splits : Nat → IRSlice) :
    Prop where
  sliced : ∀ part, Sliced function splitter.findSplitIdx part (splits part)
  covered : ∀ op < bound, ∀ part, splitter.findSplitIdx op = some part →
    op ∈ (splits part).operations
  outputs : ∀ part, splitter.OutputsUpTo part bound (splits part)

theorem Walked.step (exactly : splitter.Exact) {bound : Nat} {splits : Nat → IRSlice}
    (walked : splitter.Walked bound splits) (inside : bound < function.size) :
    splitter.Walked (bound + 1) (splitter.walkOp splits bound) := by
  unfold walkOp
  cases found : splitter.findSplitIdx bound with
  | none =>
    refine ⟨walked.sliced, fun op below part own => ?_, fun part value => ?_⟩
    · rcases Nat.lt_succ_iff_lt_or_eq.mp below with before | rfl
      · exact walked.covered op before part own
      · rw [found] at own
        cases own
    · rw [walked.outputs part value]
      refine exists_congr fun op => ⟨fun ⟨below, rest⟩ => ⟨Nat.lt_succ_of_lt below, rest⟩, ?_⟩
      rintro ⟨below, own, rest⟩
      refine ⟨Nat.lt_of_le_of_ne (Nat.le_of_lt_succ below) ?_, own, rest⟩
      rintro rfl
      rw [found] at own
      cases own
  | some own =>
    obtain ⟨covered, outputs, visited, coveredSliced, extends', mem, outputsIff⟩ :=
      exactly.visitOp (walked.sliced own) inside found
    dsimp only
    rw [visited]
    have elsewhere : ∀ part, part ≠ own → Function.update splits own
        { covered with outputs := outputs } part = splits part := fun part different =>
      Function.update_of_ne different _ _
    have here : Function.update splits own { covered with outputs := outputs } own =
        { covered with outputs := outputs } := Function.update_self _ _ _
    refine ⟨fun part => ?_, fun op below part isOwn => ?_, fun part value => ?_⟩
    · by_cases same : part = own
      · rw [same, here]
        exact ⟨coveredSliced.closed, coveredSliced.inputs, coveredSliced.operations⟩
      · rw [elsewhere part same]
        exact walked.sliced part
    · by_cases same : part = own
      · rw [same, here]
        rcases Nat.lt_succ_iff_lt_or_eq.mp below with before | rfl
        · exact extends'.operations (walked.covered op before own (same ▸ isOwn))
        · exact mem
      · rw [elsewhere part same]
        rcases Nat.lt_succ_iff_lt_or_eq.mp below with before | rfl
        · exact walked.covered op before part isOwn
        · exact absurd (some.inj (isOwn.symm.trans found)) same
    · by_cases same : part = own
      · rw [same, here]
        rw [outputsIff, walked.outputs own value]
        constructor
        · rintro (⟨op, below, rest⟩ | gives)
          · exact ⟨op, Nat.lt_succ_of_lt below, rest⟩
          · exact ⟨bound, Nat.lt_succ_self bound, found, gives⟩
        · rintro ⟨op, below, isOwn, gives⟩
          rcases Nat.lt_succ_iff_lt_or_eq.mp below with before | rfl
          · exact .inl ⟨op, before, isOwn, gives⟩
          · exact .inr gives
      · rw [elsewhere part same, walked.outputs part value]
        refine exists_congr fun op => ⟨fun ⟨below, rest⟩ => ⟨Nat.lt_succ_of_lt below, rest⟩, ?_⟩
        rintro ⟨below, isOwn, rest⟩
        refine ⟨Nat.lt_of_le_of_ne (Nat.le_of_lt_succ below) ?_, isOwn, rest⟩
        rintro rfl
        exact same (some.inj (isOwn.symm.trans found))

theorem Exact.walked (exactly : splitter.Exact) : splitter.Walked function.size splitter.walk := by
  have each : ∀ bound ≤ function.size, splitter.Walked bound
      ((List.range bound).foldl splitter.walkOp fun _ => IRSlice.empty) := by
    intro bound
    induction bound with
    | zero =>
      intro _
      refine ⟨fun part => sliced_empty _ _ _, nofun, fun part value => iff_of_false ?_ ?_⟩
      · exact not_mem_nil
      · exact fun ⟨op, below, _⟩ => not_lt_zero op below
    | succ bound ih =>
      intro inside
      rw [range_succ, foldl_append]
      exact (ih (le_of_succ_le inside)).step exactly inside
  exact each function.size le_rfl

end NaiveSplitter

/-! ### The parts of operations -/

open Function

namespace Function

variable (function : Function)

def partOf (numSplits op : Nat) : Option Nat :=
  (function.depth op).map (splitIdxOf (splittingPointsOf function.maxDepth numSplits))

variable {function}

theorem splitIdxOf_mono {splittingPoints : List Nat} {distance further : Nat}
    (less : distance ≤ further) :
    splitIdxOf splittingPoints distance ≤ splitIdxOf splittingPoints further := by
  refine findIdx_le_findIdx fun splittingPoint _ below => ?_
  rw [decide_eq_true_eq] at below ⊢
  exact less.trans below

theorem Feeds.partOf_le {numSplits op userOp part : Nat} (feeds : function.Feeds op userOp)
    (found : function.partOf numSplits op = some part) :
    ∃ userPart, function.partOf numSplits userOp = some userPart ∧ part ≤ userPart := by
  obtain ⟨distance, isDepth, rfl⟩ := Option.map_eq_some_iff.mp found
  obtain ⟨further, isFurther, less⟩ := feeds.depth_lt isDepth
  refine ⟨_, ?_, splitIdxOf_mono less.le⟩
  unfold partOf
  rw [isFurther, Option.map_some]

end Function

theorem Copied.partOf_le {numSplits part op opPart : Nat}
    (copied : Copied function (function.partOf numSplits) part op)
    (found : function.partOf numSplits op = some opPart) : opPart ≤ part := by
  induction copied generalizing opPart with
  | direct feeds own =>
    obtain ⟨userPart, isPart, less⟩ := feeds.partOf_le found
    rw [own, Option.some.injEq] at isPart
    exact less.trans_eq isPart.symm
  | chain feeds _ _ _ ih =>
    obtain ⟨userPart, isPart, less⟩ := feeds.partOf_le found
    exact less.trans (ih isPart)

section

variable {function : Function} {partOf : Nat → Option Nat} {part op : Nat}
  (copied : Copied function partOf part op)
include copied

theorem Copied.preprocessing : function.isPreprocessingOpAndHasBlockArgParent op = true := by
  cases copied with
  | direct _ _ preprocessing => exact preprocessing
  | chain _ _ preprocessing => exact preprocessing

/-- Something is copied only into a part that has operations of its own. -/
theorem Copied.exists_own : ∃ own, partOf own = some part := by
  induction copied with
  | direct _ own => exact ⟨_, own⟩
  | chain _ _ _ _ ih => exact ih

end

/-! ### The condition -/

/-- A value that leaves the part of its operation: the main function returns it, or an operation
of another part uses it. -/
def Leaves (function : Function) (numSplits part : Nat) (value : Value) : Prop :=
  value ∈ function.returned ∨ ∃ userOp userPart, value ∈ function.operandsOf userOp ∧
    function.partOf numSplits userOp = some userPart ∧ userPart ≠ part

/-- What a main function has to be to be called in parts. Only results of operations that depend on
a block argument and are no preprocessing ones are returned, and what a copied operation takes from
a third part leaves that part. -/
structure Outlinable (function : Function) (numSplits : Nat) : Prop where
  returned : ∀ op number, Value.result op number ∈ function.returned →
    function.depth op ≠ none ∧ function.isPreprocessingOpAndHasBlockArgParent op = false
  copied : ∀ part op, Copied function (function.partOf numSplits) part op →
    ∀ parentOp number, Value.result parentOp number ∈ function.operandsOf op →
      ∀ parentPart, function.partOf numSplits parentOp = some parentPart → parentPart ≠ part →
        function.isPreprocessingOpAndHasBlockArgParent parentOp = false →
          Leaves function numSplits parentPart (.result parentOp number)

/-- The parts are called in order with what is known then, define what they use, give what the main
function returns, and compute the same. -/
structure Preserves (function : Function) (parts : List IRSlice) : Prop where
  inputs : ∀ before slice after, parts = before ++ slice :: after → ∀ input ∈ slice.inputs,
    (∃ idx, input = .blockArgument idx) ∨ ∃ earlier ∈ before, input ∈ earlier.outputs
  operands : ∀ slice ∈ parts, ∀ before op after, slice.operations = before ++ op :: after →
    ∀ operand ∈ function.operandsOf op, Available slice.inputs before operand
  returned : ∀ value ∈ function.returned,
    (∃ idx, value = .blockArgument idx) ∨ ∃ slice ∈ parts, value ∈ slice.outputs
  results : ∀ {Content : Type} (meaning : Meaning Content) (arguments : List Content),
    arguments.length = function.argumentTypes.length →
      ∃ contents, function.call meaning arguments = some contents ∧
        function.callParts meaning parts arguments = some contents

/-! ### Calls -/

structure Callable (function : Function) (slice : IRSlice) : Prop where
  inside : ∀ op ∈ slice.operations, op < function.size
  closed : ∀ before op after, slice.operations = before ++ op :: after →
    ∀ operand ∈ function.operandsOf op, Available slice.inputs before operand
  outputs : ∀ output ∈ slice.outputs, ∃ op ∈ slice.operations, output ∈ function.resultsOf op

section

variable {function : Function} {Content : Type} {meaning : Meaning Content}
  {arguments : List Content} {environment other : Environment Content}

theorem Callable.executePart {slice : IRSlice} (callable : Callable function slice)
    (solves : Solves function meaning arguments function.size other)
    (agrees : environment.Agrees other) (known : ∀ input ∈ slice.inputs, environment input ≠ none) :
    ∃ after, function.executePart meaning environment slice = some after ∧ after.Agrees other ∧
      (∀ value, environment value ≠ none → after value ≠ none) ∧
      ∀ output ∈ slice.outputs, after output ≠ none := by
  obtain ⟨newInputs, found⟩ := exists_mapM known
  have empty : Environment.Agrees (fun _ => none) other := nofun
  obtain ⟨entryAgrees, -, bound⟩ := empty.bind (agrees.mapM found)
  obtain ⟨final, executed, finalAgrees, -, defined⟩ := executeAll_agrees solves slice.operations
    callable.inside entryAgrees fun before op after same operand mem =>
      (callable.closed before op after same operand mem).imp_left (bound operand)
  have given : ∀ output ∈ slice.outputs, final output ≠ none := by
    intro output mem
    obtain ⟨op, isOp, isResult⟩ := callable.outputs output mem
    exact defined op isOp output isResult
  obtain ⟨results, isResults⟩ := exists_mapM given
  obtain ⟨afterAgrees, keeps, gives⟩ := agrees.bind (finalAgrees.mapM isResults)
  refine ⟨environment.bind slice.outputs results, ?_, afterAgrees, keeps, gives⟩
  unfold Function.executePart Function.callSlice
  rw [found, Option.bind_eq_bind, Option.bind_some, executed]
  show (slice.outputs.mapM final).bind _ = _
  rw [isResults]
  rfl

theorem foldlM_executePart (solves : Solves function meaning arguments function.size other)
    (parts : List IRSlice) (callable : ∀ slice ∈ parts, Callable function slice)
    (agrees : environment.Agrees other)
    (inputs : ∀ before slice after, parts = before ++ slice :: after → ∀ input ∈ slice.inputs,
      environment input ≠ none ∨ ∃ earlier ∈ before, input ∈ earlier.outputs) :
    ∃ after, parts.foldlM (function.executePart meaning) environment = some after ∧
      after.Agrees other ∧ (∀ value, environment value ≠ none → after value ≠ none) ∧
      ∀ slice ∈ parts, ∀ output ∈ slice.outputs, after output ≠ none := by
  induction parts generalizing environment with
  | nil =>
    exact ⟨environment, rfl, agrees, fun _ known => known,
      forall_mem_nil _⟩
  | cons slice rest ih =>
    obtain ⟨isCallable, restCallable⟩ := forall_mem_cons.mp callable
    have known : ∀ input ∈ slice.inputs, environment input ≠ none := fun input mem =>
      (inputs [] slice rest rfl input mem).resolve_right
        fun ⟨earlier, absurdity, _⟩ => absurd absurdity not_mem_nil
    obtain ⟨middle, executed, middleAgrees, keeps, gives⟩ :=
      isCallable.executePart solves agrees known
    obtain ⟨after, restExecuted, afterAgrees, restKeeps, restGives⟩ :=
      ih restCallable middleAgrees (by
        intro before later following same input mem
        rcases inputs (slice :: before) later following (by rw [same, cons_append]) input
          mem with isKnown | ⟨earlier, inBefore, isOutput⟩
        · exact .inl (keeps input isKnown)
        · rcases mem_cons.mp inBefore with rfl | inRest
          · exact .inl (gives input isOutput)
          · exact .inr ⟨earlier, inRest, isOutput⟩)
    refine ⟨after, ?_, afterAgrees, fun value isKnown => restKeeps value (keeps value isKnown),
      forall_mem_cons.mpr ⟨fun output mem => restKeeps output (gives output mem), restGives⟩⟩
    rw [foldlM_cons, executed]
    exact restExecuted

/-- Parts that are called in order compute what the main function does. -/
theorem exists_callParts (parts : List IRSlice)
    (callable : ∀ slice ∈ parts, Callable function slice)
    (inputs : ∀ before slice after, parts = before ++ slice :: after → ∀ input ∈ slice.inputs,
      (∃ idx, input = .blockArgument idx) ∨ ∃ earlier ∈ before, input ∈ earlier.outputs)
    (returned : ∀ value ∈ function.returned,
      (∃ idx, value = .blockArgument idx) ∨ ∃ slice ∈ parts, value ∈ slice.outputs)
    (argumentsOfInput : ∀ slice ∈ parts, ∀ idx, Value.blockArgument idx ∈ slice.inputs →
      idx < function.argumentTypes.length)
    (enough : arguments.length = function.argumentTypes.length) :
    ∃ contents, function.call meaning arguments = some contents ∧
      function.callParts meaning parts arguments = some contents := by
  obtain ⟨final, executed, solves⟩ := exists_solves function meaning arguments enough
  have knownArgument : ∀ idx < function.argumentTypes.length,
      entry arguments (.blockArgument idx) ≠ none := by
    intro idx inside
    rw [entry, getElem?_eq_getElem (enough.symm ▸ inside)]
    exact Option.some_ne_none _
  have entryAgrees : (entry arguments).Agrees final := by
    intro value content found
    cases value with
    | blockArgument idx => exact (solves.arguments idx).trans found
    | result op number => cases found
  obtain ⟨after, called, afterAgrees, keeps, gives⟩ := foldlM_executePart solves parts callable
    entryAgrees (by
      intro before slice following same input mem
      refine (inputs before slice following same input mem).imp_left ?_
      rintro ⟨idx, rfl⟩
      exact knownArgument idx (argumentsOfInput slice
        (same ▸ mem_append_right _ mem_cons_self) idx mem))
  have known : ∀ value ∈ function.returned, after value ≠ none := by
    intro value mem
    rcases returned value mem with ⟨idx, rfl⟩ | ⟨slice, isPart, isOutput⟩
    · exact keeps _ (knownArgument idx (function.returned_defined _ mem))
    · exact gives slice isPart value isOutput
  obtain ⟨contents, found⟩ := exists_mapM known
  refine ⟨contents, ?_, ?_⟩
  · unfold call
    rw [executed]
    exact afterAgrees.mapM found
  · unfold callParts
    rw [called]
    exact found

end

/-! ### The targets -/

section

variable {function : Function} {lists : UseLists function} {numSplits : Nat} {parts : List IRSlice}

theorem getOutliningTargets_eq (targets : getOutliningTargets lists numSplits = some parts)
    (nonempty : parts ≠ []) :
    ∃ splitter : NaiveSplitter function, splitter.lists = lists ∧ splitter.Exact ∧
      splitter.findSplitIdx = function.partOf numSplits ∧
      splitter.splittingPoints.length < numSplits ∧
      parts = (List.range numSplits).map splitter.walk := by
  obtain ⟨state, searched, distances, greatest⟩ := getOpDistances_eq lists
  unfold getOutliningTargets getOutliningInstances at targets
  rw [searched] at targets
  split at targets
  · exact absurd (Option.some.inj targets).symm nonempty
  · dsimp only [Option.bind_eq_bind, Option.bind_some] at targets
    split at targets
    · rw [Option.pure_def, Option.bind_some] at targets
      simp only [any_nil, Bool.false_eq_true, if_false, Option.some.injEq] at targets
      exact absurd targets.symm nonempty
    · rename_i regular
      rw [Option.pure_def, Option.bind_some] at targets
      split at targets
      · exact absurd (Option.some.inj targets).symm nonempty
      · rw [Bool.or_eq_true, not_or, decide_eq_true_eq, not_not] at regular
        refine ⟨⟨lists, state.distances, splittingPointsOf state.maxDistance numSplits⟩, rfl,
          distances, ?_, ?_, (Option.some.inj targets).symm⟩
        · funext op
          unfold NaiveSplitter.findSplitIdx partOf
          rw [distances, greatest]
        · dsimp only
          omega

end

/-! ### The parts of the walk -/

section

variable {function : Function} {numSplits : Nat} {splitter : NaiveSplitter function}
  {op part number parentOp : Nat}

theorem partOf_lt (isPart : splitter.findSplitIdx = function.partOf numSplits)
    (few : splitter.splittingPoints.length < numSplits)
    (found : function.partOf numSplits op = some part) : part < numSplits := by
  rw [← isPart] at found
  obtain ⟨distance, -, rfl⟩ := Option.map_eq_some_iff.mp found
  exact (findIdx_le_length).trans_lt few

theorem map_range_eq_append {Slice : Type} {walk : Nat → Slice} {before after : List Slice}
    {slice : Slice} (same : (List.range numSplits).map walk = before ++ slice :: after) :
    slice = walk before.length ∧ before = (List.range before.length).map walk := by
  have inside : before.length < numSplits := by
    have lengths := congrArg length same
    rw [length_map, length_range, length_append, length_cons] at lengths
    omega
  constructor
  · have found := congrArg (·[before.length]?) same
    rw [getElem?_map, getElem?_range inside, Option.map_some,
      getElem?_append_right le_rfl, Nat.sub_self, getElem?_cons_zero,
      Option.some.injEq] at found
    exact found.symm
  · have taken := congrArg (take before.length) same
    rw [take_left, ← map_take, take_range, min_eq_left inside.le] at taken
    exact taken.symm

section

variable (exactly : splitter.Exact)
include exactly

theorem mem_outputs_iff (isPart : splitter.findSplitIdx = function.partOf numSplits) :
    Value.result op number ∈ (splitter.walk part).outputs ↔
      op < function.size ∧ function.partOf numSplits op = some part ∧
        Value.result op number ∈ function.resultsOf op ∧
        Leaves function numSplits part (.result op number) ∧
        function.isPreprocessingOpAndHasBlockArgParent op = false := by
  have leaves : ∀ value, splitter.isOutput part value = true ↔
      Leaves function numSplits part value := by
    intro value
    unfold NaiveSplitter.isOutput Leaves
    rw [isPart, Bool.or_eq_true, decide_eq_true_eq, List.any_eq_true]
    refine or_congr_right (exists_congr fun userOp => ?_)
    rw [mem_getUsers, Option.any_eq_true]
    simp only [decide_eq_true_eq]
    exact ⟨fun ⟨uses, userPart, found⟩ => ⟨userPart, uses, found⟩,
      fun ⟨userPart, uses, found⟩ => ⟨uses, userPart, found⟩⟩
  rw [exactly.walked.outputs part, isPart]
  constructor
  · rintro ⟨other, below, found, isResult, isOutput, rest⟩
    obtain ⟨otherNumber, -, same⟩ := mem_resultsOf.mp isResult
    cases same
    exact ⟨below, found, isResult, (leaves _).mp isOutput, rest⟩
  · rintro ⟨below, found, isResult, isLeaving, rest⟩
    exact ⟨op, below, found, isResult, (leaves _).mpr isLeaving, rest⟩

theorem callable_walk (part : Nat) :
    Callable function (splitter.walk part) where
  inside op mem := ((exactly.walked.sliced part).operations op mem).1
  closed := (exactly.walked.sliced part).closed
  outputs output mem := by
    obtain ⟨op, below, found, isResult, -⟩ := (exactly.walked.outputs part output).mp mem
    exact ⟨op, exactly.walked.covered op below part found, isResult⟩

section

variable (mem : op ∈ (splitter.walk part).operations)
  (uses : Value.result parentOp number ∈ function.operandsOf op)
include mem uses

theorem mem_inputs_of_operand {parentPart : Nat}
    (found : splitter.findSplitIdx parentOp = some parentPart) (different : parentPart ≠ part)
    (keeps : function.isPreprocessingOpAndHasBlockArgParent parentOp = false) :
    Value.result parentOp number ∈ (splitter.walk part).inputs := by
  have sliced := exactly.walked.sliced part
  obtain ⟨before, after, same⟩ := append_of_mem mem
  refine (sliced.closed before op after same _ uses).resolve_right ?_
  rintro ⟨other, inBefore, otherNumber, isResult⟩
  cases isResult
  have wanted := (sliced.operations parentOp (same ▸ mem_append_left _ inBefore)).2
  rw [found, Option.some.injEq] at wanted
  rcases wanted with isOwn | nowhere | copied
  · exact different isOwn
  · cases nowhere
  · have preprocessing := copied.preprocessing
    rw [keeps] at preprocessing
    cases preprocessing

/-- What a part uses of a preprocessing operation is no input, so the part has the operation. -/
theorem mem_operations_of_operand
    (preprocessing : function.isPreprocessingOpAndHasBlockArgParent parentOp = true) :
    parentOp ∈ (splitter.walk part).operations := by
  have sliced := exactly.walked.sliced part
  obtain ⟨before, after, same⟩ := append_of_mem mem
  rcases sliced.closed before op after same _ uses with isInput |
    ⟨other, inBefore, otherNumber, isResult⟩
  · have keeps := (sliced.inputs _ isInput).1.2
    rw [preprocessing] at keeps
    cases keeps
  · cases isResult
    exact same ▸ mem_append_left _ inBefore

end

theorem mem_operations_of_copied (copied : Copied function splitter.findSplitIdx part op) :
    op ∈ (splitter.walk part).operations := by
  induction copied with
  | direct feeds own preprocessing =>
    obtain ⟨number, uses⟩ := feeds
    exact mem_operations_of_operand exactly (exactly.walked.covered _
      (definedBefore_of_mem_operandsOf uses).1 part own) uses preprocessing
  | chain feeds _ preprocessing _ ih =>
    obtain ⟨number, uses⟩ := feeds
    exact mem_operations_of_operand exactly ih uses preprocessing

end

section

variable (outlinable : Outlinable function numSplits) (exactly : splitter.Exact)
  (isPart : splitter.findSplitIdx = function.partOf numSplits)
include outlinable exactly isPart

theorem Outlinable.input_leaves (mem : Value.result parentOp number ∈ (splitter.walk part).inputs) :
    ∃ parentPart < part,
      Value.result parentOp number ∈ (splitter.walk parentPart).outputs := by
  obtain ⟨⟨⟨parentPart, found, different⟩, keeps⟩, op, wanted, uses⟩ :=
    (exactly.walked.sliced part).inputs _ mem
  rw [isPart] at found wanted
  have feeds : function.Feeds parentOp op := ⟨number, uses⟩
  obtain ⟨opPart, isOpPart, less⟩ := feeds.partOf_le found
  have needs : parentPart ≤ part ∧ Leaves function numSplits parentPart
      (.result parentOp number) := by
    rcases wanted.2 with isOwn | nowhere | copied
    · rw [isOpPart, Option.some.injEq] at isOwn
      exact ⟨less.trans_eq isOwn, .inr ⟨op, opPart, uses, isOpPart, isOwn ▸ different.symm⟩⟩
    · rw [isOpPart] at nowhere
      cases nowhere
    · exact ⟨less.trans (copied.partOf_le isOpPart),
        outlinable.copied part op copied parentOp number uses parentPart found different keeps⟩
  exact ⟨parentPart, Nat.lt_of_le_of_ne needs.1 different, (mem_outputs_iff exactly isPart).mpr
    ⟨feeds.lt.1.trans feeds.lt.2, found, (mem_resultsOf_of_operand uses).2, needs.2, keeps⟩⟩

theorem Outlinable.preserves (few : splitter.splittingPoints.length < numSplits) :
    Preserves function ((List.range numSplits).map splitter.walk) := by
  have inputs : ∀ before slice after,
      (range numSplits).map splitter.walk = before ++ slice :: after →
        ∀ input ∈ slice.inputs,
          (∃ idx, input = .blockArgument idx) ∨
            ∃ earlier ∈ before, input ∈ earlier.outputs := by
    intro before slice after same input mem
    obtain ⟨rfl, isBefore⟩ := map_range_eq_append same
    cases input with
    | blockArgument idx => exact .inl ⟨idx, rfl⟩
    | result parentOp number =>
      obtain ⟨parentPart, earlier, isOutput⟩ := outlinable.input_leaves exactly isPart mem
      refine .inr ⟨splitter.walk parentPart, ?_, isOutput⟩
      rw [isBefore]
      exact mem_map_of_mem (mem_range.mpr earlier)
  have returned : ∀ value ∈ function.returned, (∃ idx, value = .blockArgument idx) ∨
      ∃ slice ∈ (range numSplits).map splitter.walk, value ∈ slice.outputs := by
    intro value mem
    cases value with
    | blockArgument idx => exact .inl ⟨idx, rfl⟩
    | result op number =>
      obtain ⟨deep, keeps⟩ := outlinable.returned op number mem
      obtain ⟨distance, isDepth⟩ := Option.ne_none_iff_exists'.mp deep
      have found : function.partOf numSplits op = some _ := congrArg (Option.map _) isDepth
      obtain ⟨below, inside⟩ := function.returned_defined _ mem
      refine .inr ⟨_, mem_map_of_mem (mem_range.mpr (partOf_lt isPart few found)),
        (mem_outputs_iff exactly isPart).mpr ⟨below, found, ?_, .inl mem, keeps⟩⟩
      exact mem_resultsOf.mpr
        ⟨number, (length_resultTypesOf op).symm ▸ inside, rfl⟩
  have callable : ∀ slice ∈ (range numSplits).map splitter.walk,
      Callable function slice :=
    forall_mem_map.mpr fun part _ => callable_walk exactly part
  refine ⟨inputs, fun slice mem => (callable slice mem).closed, returned,
    fun meaning arguments enough =>
      exists_callParts _ callable inputs returned (forall_mem_map.mpr ?_) enough⟩
  intro part _ idx mem
  obtain ⟨-, op, -, uses⟩ := (exactly.walked.sliced part).inputs _ mem
  exact (definedBefore_of_mem_operandsOf uses).2

end

theorem Preserves.outlinable (exactly : splitter.Exact)
    (isPart : splitter.findSplitIdx = function.partOf numSplits)
    (few : splitter.splittingPoints.length < numSplits)
    (preserves : Preserves function ((List.range numSplits).map splitter.walk)) :
    Outlinable function numSplits where
  returned op number mem := by
    rcases preserves.returned _ mem with ⟨idx, absurdity⟩ | ⟨slice, isSlice, isOutput⟩
    · cases absurdity
    · obtain ⟨part, -, rfl⟩ := mem_map.mp isSlice
      obtain ⟨-, found, -, -, keeps⟩ := (mem_outputs_iff exactly isPart).mp isOutput
      refine ⟨fun shallow => ?_, keeps⟩
      unfold partOf at found
      rw [shallow] at found
      cases found
  copied part op copied parentOp number uses parentPart found different keeps := by
    obtain ⟨own, isOwn⟩ := copied.exists_own
    have below := partOf_lt isPart few isOwn
    rw [← isPart] at copied
    have isInput := mem_inputs_of_operand exactly (mem_operations_of_copied exactly copied) uses
      (isPart.symm ▸ found) different keeps
    obtain ⟨earlierParts, laterParts, same⟩ := append_of_mem (mem_range.mpr below)
    have split : (range numSplits).map splitter.walk =
        earlierParts.map splitter.walk ++ splitter.walk part :: laterParts.map splitter.walk := by
      rw [same, map_append, map_cons]
    rcases preserves.inputs _ _ _ split _ isInput with ⟨idx, absurdity⟩ |
      ⟨earlier, isEarlier, isOutput⟩
    · cases absurdity
    · obtain ⟨other, -, rfl⟩ := mem_map.mp isEarlier
      obtain ⟨-, isOther, -, leaves, -⟩ := (mem_outputs_iff exactly isPart).mp isOutput
      rw [found, Option.some.injEq] at isOther
      exact isOther ▸ leaves

end

/-! ### Naive outlining -/

/-- The parts that are returned are called with the meaning of the main function exactly when it
can be outlined. -/
theorem getOutliningTargets_preserves_iff {function : Function} (lists : UseLists function)
    (numSplits : Nat) {parts : List IRSlice}
    (targets : getOutliningTargets lists numSplits = some parts) (nonempty : parts ≠ []) :
    Preserves function parts ↔ Outlinable function numSplits := by
  obtain ⟨splitter, -, exactly, isPart, few, rfl⟩ := getOutliningTargets_eq targets nonempty
  exact ⟨fun preserves => preserves.outlinable exactly isPart few,
    fun outlinable => outlinable.preserves exactly isPart few⟩

/-- The lists that have the uses in the order of the users. -/
def UseLists.inOrder (function : Function) : UseLists function where
  uses value := (List.range function.size).flatMap fun user =>
    (List.range (function.operandsOf user).length).filterMap fun number =>
      if (function.operandsOf user)[number]? = some value then some (user, number) else none
  mem_uses value user number := by
    simp only [mem_flatMap, mem_filterMap, mem_range, Option.ite_none_right_eq_some,
      Option.some.injEq, Prod.mk.injEq]
    constructor
    · rintro ⟨other, -, otherNumber, -, found, rfl, rfl⟩
      exact found
    · intro found
      obtain ⟨inside, -⟩ := List.getElem?_eq_some_iff.mp found
      exact ⟨user, (Function.definedBefore_of_mem_operandsOf (mem_of_getElem? found)).1,
        number, inside, found, rfl, rfl⟩

/-- A converted argument feeds two layers, and both parts use it. -/
def convertedArgument (returned : List Value) (defined : ∀ value ∈ returned, value.DefinedBefore [0]
      [⟨.convert, 0, [0], [.blockArgument 0]⟩, ⟨.other 0, 0, [0], [.result 0 0]⟩,
        ⟨.other 0, 0, [0], [.result 1 0, .result 0 0]⟩] 3) : Function where
  argumentTypes := [0]
  operations := [⟨.convert, 0, [0], [.blockArgument 0]⟩, ⟨.other 0, 0, [0], [.result 0 0]⟩,
    ⟨.other 0, 0, [0], [.result 1 0, .result 0 0]⟩]
  returned := returned
  operands_defined := by decide
  returned_defined := defined

/-- Without returning the converted argument itself, its layers are outlined with their meaning. -/
theorem convertedArgument_preserves :
    Preserves (convertedArgument [.result 2 0] (by decide))
      [⟨[.blockArgument 0], [.result 1 0], [0, 1], []⟩,
        ⟨[.result 1 0, .blockArgument 0], [.result 2 0], [0, 2], []⟩] := by
  refine (getOutliningTargets_preserves_iff (UseLists.inOrder _) 2 (by decide) (by decide)).mpr
    ⟨?_, ?_⟩
  · intro op number mem
    cases mem_singleton.mp mem
    decide
  · intro part op copied parentOp number uses
    -- Only the conversion is a preprocessing operation, and it uses the argument.
    have isFirst : ∀ op < 3, (convertedArgument [.result 2 0]
        (by decide)).isPreprocessingOpAndHasBlockArgParent op = true → op = 0 := by
      decide
    cases isFirst op (definedBefore_of_mem_operandsOf uses).1 copied.preprocessing
    cases mem_singleton.mp uses

/-- The main function also returns the converted argument, which no part gives back. -/
theorem convertedArgument_returned_not_preserved :
    getOutliningTargets (UseLists.inOrder
        (convertedArgument [.result 0 0, .result 2 0] (by decide))) 2 =
      some [⟨[.blockArgument 0], [.result 1 0], [0, 1], []⟩,
        ⟨[.result 1 0, .blockArgument 0], [.result 2 0], [0, 2], []⟩] ∧
    ¬ Preserves (convertedArgument [.result 0 0, .result 2 0] (by decide))
      [⟨[.blockArgument 0], [.result 1 0], [0, 1], []⟩,
        ⟨[.result 1 0, .blockArgument 0], [.result 2 0], [0, 2], []⟩] := by
  refine ⟨by decide, fun preserves => ?_⟩
  rcases preserves.returned (.result 0 0) mem_cons_self with ⟨idx, absurdity⟩ |
    ⟨slice, mem, isOutput⟩
  · cases absurdity
  · revert slice
    decide

end NpuPlugin.FunctionOutlining
