/-
This file proves by induction over the updated arguments that the pass gives the rewritten function:
each step makes one argument a common one and changes nothing else.
-/

import Mathlib.Order.Interval.Finset.Nat
import NpuPlugin.RepeatingCalls.Model

namespace NpuPlugin.RepeatingCalls

open Function List

variable {prog : Program} {order : prog.CalleeOrder}

/-! ### Values -/

namespace Program

variable {place : Nat} {value : Value} {op : Op} {slot : Slot} {call number : Nat}
  {done : List (Nat × Slot)} {input output : Nat}

theorem definedBefore_of_mem (mem : value ∈ (prog.opAt place).inputs ++ (prog.opAt place).outputs) :
    place < prog.size ∧ value.DefinedBefore prog.ops place := by
  have inside : place < prog.size := by
    by_contra outside
    rw [opAt_of_le (not_lt.mp outside)] at mem
    exact absurd mem not_mem_nil
  have found := getElem?_eq_getElem inside
  refine ⟨inside, prog.operands_defined place inside _ found value ?_⟩
  unfold opAt at mem
  rw [getD_eq_getElem?_getD, found, Option.getD_some] at mem
  exact mem

theorem mem_of_operand (found : op.operand slot = some value) :
    value ∈ op.inputs ++ op.outputs := by
  cases slot with
  | input idx => exact mem_append_left _ (mem_of_getElem? found)
  | output idx => exact mem_append_right _ (mem_of_getElem? found)

theorem lt_of_operand
    (found : (prog.opAt place).operand slot = some (.result (.original call) number)) :
    call < place :=
  (definedBefore_of_mem (mem_of_operand found)).2.1

theorem replacedValue_eq_or (done : List (Nat × Slot)) (place : Nat) (value : Value) :
    prog.replacedValue done place value = value ∨ ∃ call number,
      value = .result (.original call) number ∧ (call, .output number) ∈ done ∧
        prog.callee place ≠ prog.callee call ∧
        prog.replacedValue done place value = .result (.copyOut call number) 0 := by
  unfold replacedValue
  split
  · split
    · rename_i call number replaces
      exact .inr ⟨call, number, rfl, replaces.1, replaces.2, rfl⟩
    · exact .inl rfl
  · exact .inl rfl

theorem replacedValue_eq_result
    (same : prog.replacedValue done place value = .result (.original call) number) :
    value = .result (.original call) number := by
  rcases replacedValue_eq_or done place value with kept | ⟨_, _, -, -, -, copied⟩
  · exact kept.symm.trans same
  · rw [copied] at same
    cases same

theorem replacedValue_append_output (value : Value) (fresh : (call, Slot.output number) ∉ done) :
    prog.replacedValue (done ++ [(call, .output number)]) place value =
      if prog.callee place ≠ prog.callee call ∧
          prog.replacedValue done place value = .result (.original call) number then
        .result (.copyOut call number) 0
      else prog.replacedValue done place value := by
  unfold replacedValue
  split
  · rename_i other otherNumber
    by_cases isThis : other = call ∧ otherNumber = number
    · obtain ⟨rfl, rfl⟩ := isThis
      simp [fresh]
    · have apart : ¬ ((other, Slot.output otherNumber) = (call, .output number)) := by
        rintro ⟨⟩
        exact isThis ⟨rfl, rfl⟩
      simp only [mem_append, mem_singleton, apart, or_false]
      split
      · simp
      · simp only [Value.result.injEq, OpId.original.injEq, isThis, and_false, if_false]
  · rename_i other notResult
    split
    · rename_i replaces
      exact absurd replaces.2 (notResult call number)
    · rfl

theorem replacedValue_append_input (value : Value) :
    prog.replacedValue (done ++ [(call, .input input)]) place value =
      prog.replacedValue done place value := by
  unfold replacedValue
  simp

theorem rewrittenInput_append_input :
    prog.rewrittenInput (done ++ [(call, .input input)]) place = fun idx value =>
      if place = call ∧ idx = input then .result (.copyIn place idx) 0
      else prog.rewrittenInput done place idx value := by
  funext idx value
  unfold rewrittenInput
  rw [replacedValue_append_input]
  by_cases isThis : place = call ∧ idx = input
  · obtain ⟨rfl, rfl⟩ := isThis
    simp
  · simp [isThis]

theorem rewrittenOutput_append_input :
    prog.rewrittenOutput (done ++ [(call, .input input)]) place =
      prog.rewrittenOutput done place := by
  funext idx value
  unfold rewrittenOutput
  rw [replacedValue_append_input]
  simp

theorem rewrittenInput_append_output (fresh : (call, Slot.output output) ∉ done) :
    prog.rewrittenInput (done ++ [(call, .output output)]) place = fun idx value =>
      if prog.callee place ≠ prog.callee call ∧
          prog.rewrittenInput done place idx value = .result (.original call) output then
        .result (.copyOut call output) 0
      else prog.rewrittenInput done place idx value := by
  funext idx value
  unfold rewrittenInput
  rw [replacedValue_append_output value fresh]
  by_cases isDone : (place, Slot.input idx) ∈ done
  · simp [isDone]
  · simp [isDone]

theorem rewrittenOutput_append_output (fresh : (call, Slot.output output) ∉ done) :
    prog.rewrittenOutput (done ++ [(call, .output output)]) place = fun idx value =>
      if place = call ∧ idx = output then .commonArg (prog.calleeOf place) (.output idx)
      else if prog.callee place ≠ prog.callee call ∧
          prog.rewrittenOutput done place idx value = .result (.original call) output then
        .result (.copyOut call output) 0
      else prog.rewrittenOutput done place idx value := by
  funext idx value
  unfold rewrittenOutput
  rw [replacedValue_append_output value fresh]
  by_cases isThis : place = call ∧ idx = output
  · obtain ⟨rfl, rfl⟩ := isThis
    simp
  · by_cases isDone : (place, Slot.output idx) ∈ done
    · simp [isDone, isThis]
    · simp [isDone, isThis]

theorem replacedValue_eq_copyOut {entry : Nat}
    (isEntry : (prog.opAt place).inputs[entry]? = some value ∨
      (prog.opAt place).outputs[entry]? = some value)
    (same : prog.replacedValue done place value = .result (.copyOut call output) 0) :
    value = .result (.original call) output ∧ prog.callee place ≠ prog.callee call := by
  rcases replacedValue_eq_or done place value with
    kept | ⟨other, number, isResult, -, apart, copied⟩
  · have mem : value ∈ (prog.opAt place).inputs ++ (prog.opAt place).outputs :=
      isEntry.elim (fun found => mem_append_left _ (mem_of_getElem? found))
        fun found => mem_append_right _ (mem_of_getElem? found)
    have absurdity := (definedBefore_of_mem mem).2
    rw [← kept, same] at absurdity
    exact absurdity.elim
  · rw [copied] at same
    cases same
    exact ⟨isResult, apart⟩

theorem isRepeatingCall_iff {callee : Nat} (isCall : prog.callee call = some callee)
    (sameKind : op.kind = (prog.opAt place).kind) :
    isRepeatingCall (prog.calleeOf call) op = true ↔
      prog.callee place = prog.callee call := by
  unfold isRepeatingCall calleeOf
  rw [isCall, Option.getD_some, decide_eq_true_eq, sameKind, ← callee_eq_some]

end Program

variable {Entry Image : Type} (image : Nat → Entry → Image)

theorem map_mapIdx {Other : Type} (further : Image → Other) (entries : List Entry) :
    (entries.mapIdx image).map further = entries.mapIdx fun idx entry =>
      further (image idx entry) := by
  refine ext_getElem? fun idx => ?_
  rw [getElem?_map, getElem?_mapIdx, getElem?_mapIdx, Option.map_map]
  rfl

theorem set_mapIdx (entries : List Entry) (place : Nat) (replacement : Image) :
    (entries.mapIdx image).set place replacement =
      entries.mapIdx fun idx entry => if idx = place then replacement else image idx entry := by
  refine ext_getElem? fun idx => ?_
  rw [getElem?_set, getElem?_mapIdx, getElem?_mapIdx, length_mapIdx]
  by_cases same : place = idx
  · subst same
    simp only [if_true]
    by_cases inside : place < entries.length
    · rw [if_pos inside, getElem?_eq_getElem inside, Option.map_some]
    · rw [if_neg inside, getElem?_eq_none (not_lt.mp inside), Option.map_none]
  · rw [if_neg same]
    simp only [Ne.symm same, if_false]
/-! ### The invariant -/

/-- What the pass has made of the function when some arguments are done. -/
structure RewritingInv (prog : Program) (order : prog.CalleeOrder)
    (done : List (Nat × Slot)) (state : Rewriting) : Prop where
  original : ∀ place, state.opOf (.original place) = prog.rewrittenOp done place
  copyIn : ∀ place input value, (place, .input input) ∈ done →
    (prog.opAt place).inputs[input]? = some value →
      state.opOf (.copyIn place input) = ⟨.copy, [prog.replacedValue done place value],
        [.commonArg (prog.calleeOf place) (.input input)]⟩
  copyOut : ∀ place output value, (place, .output output) ∈ done →
    (prog.opAt place).outputs[output]? = some value →
      state.opOf (.copyOut place output) =
        ⟨.copy, [.result (.original place) output], [prog.getSingleRoot value]⟩
  before : ∀ place, state.before place = ((List.range (prog.opAt place).inputs.length).filter
    fun input => (place, .input input) ∈ done).map (.copyIn place)
  after : ∀ place, state.after place = (((List.range (prog.opAt place).outputs.length).filter
    fun output => (place, .output output) ∈ done ∧
      prog.isKept order place output = true).map (.copyOut place)).reverse

theorem start_inv (prog : Program) (order : prog.CalleeOrder) :
    RewritingInv prog order [] prog.start where
  original place := by
    show prog.opAt place = _
    have keeps : ∀ value, prog.replacedValue [] place value = value := by
      intro value
      unfold Program.replacedValue
      split
      · simp
      · rfl
    unfold Program.rewrittenOp Program.rewrittenInput Program.rewrittenOutput
    simp [keeps, mapIdx_eq_zipIdx_map]
  copyIn := nofun
  copyOut := nofun
  before place := by simp [Program.start]
  after place := by simp [Program.start]

/-! ### An input -/

section

variable {done rest : List (Nat × Slot)} {state after : Rewriting} {call : Nat} {site : Nat × Slot}

section

variable (split : prog.sites order = done ++ site :: rest)
include split

theorem SiteBefore.fresh : site ∉ done := by
  have nodup := Program.sites_nodup order
  rw [split] at nodup
  intro mem
  exact (disjoint_of_nodup_append nodup) mem mem_cons_self

theorem SiteBefore.of_split {other : Nat × Slot} (mem : other ∈ done) :
    prog.SiteBefore other site := by
  have pairwise := Program.sites_pairwise order
  rw [split] at pairwise
  exact (pairwise_append.mp pairwise).2.2 other mem site mem_cons_self

theorem SiteBefore.operand :
    ∃ callee value, prog.callee site.1 = some callee ∧
      (prog.opAt site.1).operand site.2 = some value := by
  have mem : site ∈ prog.sites order := split ▸ mem_append_right _ mem_cons_self
  obtain ⟨callee, isCall, found, -⟩ := Program.mem_sites.mp mem
  obtain ⟨value, found⟩ := Option.ne_none_iff_exists'.mp found
  exact ⟨callee, value, isCall, found⟩

end

theorem filter_range_append {holds : Nat → Prop} [DecidablePred holds] {next bound : Nat}
    (inside : next < bound) (below : ∀ idx, holds idx → idx < next) :
    (List.range bound).filter (fun idx => holds idx ∨ idx = next) =
      (List.range bound).filter (fun idx => holds idx) ++ [next] := by
  induction bound with
  | zero => exact absurd inside (Nat.not_lt_zero _)
  | succ bound ih =>
    rw [range_succ, filter_append, filter_append]
    rcases Nat.lt_succ_iff_lt_or_eq.mp inside with less | rfl
    · have apart : ¬ holds bound := fun isHeld => Nat.lt_asymm less (below bound isHeld)
      have different : bound ≠ next := less.ne'
      rw [ih less]
      simp [apart, different]
    · have apart : ¬ holds next := fun isHeld => Nat.lt_irrefl _ (below next isHeld)
      have same : (range next).filter (fun idx => holds idx ∨ idx = next) =
          (range next).filter (fun idx => holds idx) := by
        refine filter_congr fun idx mem => ?_
        have different : idx ≠ next := (mem_range.mp mem).ne
        simp [different]
      rw [same]
      simp [apart]

theorem RewritingInv.replaceInputArg {input : Nat} (inv : RewritingInv prog order done state)
    (split : prog.sites order = done ++ (call, .input input) :: rest) :
    RewritingInv prog order (done ++ [(call, .input input)])
      (replaceInputArg (prog.calleeOf call) call input state) := by
  have fresh := SiteBefore.fresh split
  obtain ⟨callee, value, isCall, found⟩ := SiteBefore.operand split
  have isInput : (prog.opAt call).inputs[input]? = some value := found
  have current : (state.opOf (.original call)).inputs[input]? =
      some (prog.replacedValue done call value) := by
    rw [inv.original, Program.rewrittenOp, getElem?_mapIdx, isInput, Option.map_some,
      Program.rewrittenInput, if_neg fresh]
  unfold RepeatingCalls.replaceInputArg
  rw [current]
  have mem_iff : ∀ place slot, (place, slot) ∈ done ++ [(call, Slot.input input)] ↔
      (place, slot) ∈ done ∨ place = call ∧ slot = .input input := by
    intro place slot
    rw [mem_append, mem_singleton, Prod.mk.injEq]
  constructor
  · intro place
    dsimp only
    by_cases same : place = call
    · rw [same, update_self, inv.original]
      unfold Program.rewrittenOp Op.setOperand
      dsimp only
      rw [set_mapIdx, Program.rewrittenInput_append_input, Program.rewrittenOutput_append_input]
      simp only [true_and, Op.mk.injEq, and_true]
      refine congrArg (fun image => (prog.opAt call).inputs.mapIdx image) ?_
      funext idx entry
      refine ite_congr rfl (fun isThis => ?_) fun _ => rfl
      rw [isThis]
    · rw [update_of_ne fun equal => same (OpId.original.inj equal),
        update_of_ne (show OpId.original place ≠ .copyIn call input from nofun),
        inv.original]
      unfold Program.rewrittenOp
      simp only [Program.rewrittenInput_append_input, Program.rewrittenOutput_append_input, same,
        false_and, if_false]
  · intro place idx entry mem isEntry
    dsimp only
    rw [update_of_ne (show OpId.copyIn place idx ≠ .original call from nofun),
      Program.replacedValue_append_input]
    by_cases same : OpId.copyIn place idx = .copyIn call input
    · cases same
      rw [update_self]
      obtain rfl : value = entry := Option.some.inj (isInput.symm.trans isEntry)
      rfl
    · rw [update_of_ne same]
      refine inv.copyIn place idx entry (((mem_iff _ _).mp mem).resolve_right ?_) isEntry
      rintro ⟨rfl, ⟨⟩⟩
      exact same rfl
  · intro place idx entry mem isEntry
    dsimp only
    rw [update_of_ne (show OpId.copyOut place idx ≠ .original call from nofun),
      update_of_ne (show OpId.copyOut place idx ≠ .copyIn call input from nofun)]
    exact inv.copyOut place idx entry
      (((mem_iff _ _).mp mem).resolve_right fun absurdity => nomatch absurdity.2) isEntry
  · intro place
    dsimp only
    by_cases same : place = call
    · have below : ∀ idx, (call, Slot.input idx) ∈ done → idx < input := by
        intro idx mem
        rcases (SiteBefore.of_split split mem).1 rfl with absurdity | ⟨-, before⟩
        · exact absurd absurdity (Nat.lt_irrefl _)
        · exact before
      have inside := (List.getElem?_eq_some_iff.mp isInput).1
      rw [same, update_self, inv.before]
      simp only [mem_iff, Slot.input.injEq, true_and]
      rw [filter_range_append inside below, map_append]
      rfl
    · rw [update_of_ne same, inv.before]
      simp only [mem_iff, same, false_and, or_false]
  · intro place
    rw [inv.after]
    simp only [mem_iff, reduceCtorEq, and_false, or_false]

/-! ### An output -/

structure OutputDone (prog : Program) (done : List (Nat × Slot)) (call output : Nat)
    (opOf after : OpId → Op) : Prop where
  original : ∀ place, after (.original place) =
    prog.rewrittenOp (done ++ [(call, .output output)]) place
  copyIn : ∀ place input value, (place, .input input) ∈ done →
    (prog.opAt place).inputs[input]? = some value →
      after (.copyIn place input) = ⟨.copy,
        [prog.replacedValue (done ++ [(call, .output output)]) place value],
        [.commonArg (prog.calleeOf place) (.input input)]⟩
  copyOut : ∀ place other value, (place, .output other) ∈ done ++ [(call, .output output)] →
    (prog.opAt place).outputs[other]? = some value →
      after (.copyOut place other) =
        ⟨.copy, [.result (.original place) other], [prog.getSingleRoot value]⟩

variable {value : Value}

theorem getSingleRoot_ne_result {op : OpId} {number : Nat} :
    prog.getSingleRoot value ≠ .result op number := by
  unfold Program.getSingleRoot
  split <;> nofun

theorem RewritingInv.outputDone {output callee : Nat} (inv : RewritingInv prog order done state)
    (split : prog.sites order = done ++ (call, .output output) :: rest)
    (isCall : prog.callee call = some callee)
    (isOutput : (prog.opAt call).outputs[output]? = some value) :
    OutputDone prog done call output state.opOf
      (replaceResult (prog.calleeOf call) call output (Function.update
          (Function.update state.opOf (.original call) ((state.opOf (.original call)).setOperand
              (.commonArg (prog.calleeOf call) (.output output)) (.output output)))
          (.copyOut call output)
          ⟨.copy, [.result (.original call) output], [prog.getSingleRoot value]⟩)) := by
  have fresh := SiteBefore.fresh split
  constructor
  · intro place
    unfold replaceResult
    rw [update_of_ne (show OpId.original place ≠ .copyOut call output from nofun)]
    by_cases same : place = call
    · rw [same, update_self, inv.original,
        if_pos (.inr ((Program.isRepeatingCall_iff isCall rfl).mpr rfl))]
      unfold Program.rewrittenOp Op.setOperand
      dsimp only
      rw [set_mapIdx, Program.rewrittenInput_append_output fresh,
        Program.rewrittenOutput_append_output fresh]
      simp only [ne_eq, not_true_eq_false, false_and, if_false, true_and, Op.mk.injEq]
      refine congrArg (fun image => (prog.opAt call).outputs.mapIdx image) ?_
      funext idx entry
      refine ite_congr rfl (fun isThis => ?_) fun _ => rfl
      rw [isThis]
    · rw [update_of_ne fun equal => same (OpId.original.inj equal), inv.original]
      by_cases repeats : prog.callee place = prog.callee call
      · rw [if_pos (.inr ((Program.isRepeatingCall_iff isCall rfl).mpr repeats))]
        unfold Program.rewrittenOp
        rw [Program.rewrittenInput_append_output fresh, Program.rewrittenOutput_append_output fresh]
        simp only [repeats, ne_eq, not_true_eq_false, false_and, if_false, same]
      · rw [if_neg (by
          rintro (absurdity | absurdity)
          · cases absurdity
          · exact repeats ((Program.isRepeatingCall_iff isCall rfl).mp absurdity))]
        unfold Program.rewrittenOp Op.replaceUses
        rw [Program.rewrittenInput_append_output fresh,
          Program.rewrittenOutput_append_output fresh, map_mapIdx, map_mapIdx]
        simp only [repeats, ne_eq, not_false_eq_true, true_and, same, false_and, if_false]
  · intro place input entry mem isEntry
    unfold replaceResult
    rw [update_of_ne (show OpId.copyIn place input ≠ .copyOut call output from nofun),
      update_of_ne (show OpId.copyIn place input ≠ .original call from nofun),
      inv.copyIn place input entry mem isEntry,
      if_neg (show ¬ (OpId.copyIn place input = .copyOut call output ∨ _) from by
        rintro (absurdity | absurdity)
        · cases absurdity
        · cases absurdity),
      Program.replacedValue_append_output entry fresh]
    unfold Op.replaceUses
    simp only [map_cons, map_nil, reduceCtorEq, if_false, Op.mk.injEq, cons.injEq,
      and_true, true_and]
    refine if_congr (and_iff_right_of_imp fun isResult => ?_).symm rfl rfl
    -- A call of the same callee whose input is done would come before the call it depends on.
    intro repeats
    have isOperand : (prog.opAt place).operand (.input input) =
        some (.result (.original call) output) := by
      rw [← Program.replacedValue_eq_result isResult]
      exact isEntry
    have later := Program.lt_of_operand isOperand
    rcases (SiteBefore.of_split split mem).1 repeats with earlier | ⟨same, -⟩
    · exact Nat.lt_asymm later earlier
    · exact absurd same later.ne'
  · intro place other entry mem isEntry
    unfold replaceResult
    by_cases same : OpId.copyOut place other = .copyOut call output
    · cases same
      obtain rfl : value = entry := Option.some.inj (isOutput.symm.trans isEntry)
      rw [update_self, if_pos (.inl rfl)]
    · rw [update_of_ne same,
        update_of_ne (show OpId.copyOut place other ≠ .original call from nofun)]
      have isDone : (place, Slot.output other) ∈ done := by
        refine (mem_append.mp mem).resolve_right fun absurdity => ?_
        cases mem_singleton.mp absurdity
        exact same rfl
      rw [inv.copyOut place other entry isDone isEntry, if_neg (by
        rintro (absurdity | absurdity)
        · exact same absurdity
        · cases absurdity)]
      unfold Op.replaceUses
      have notThis : ¬ (place = call ∧ other = output) := by
        rintro ⟨rfl, rfl⟩
        exact same rfl
      simp only [map_cons, map_nil, Value.result.injEq, OpId.original.injEq, notThis,
        if_false, getSingleRoot_ne_result]

theorem mem_block {size : Nat} {id : OpId} :
    id ∈ state.block size ↔ ∃ place < size,
      id ∈ state.before place ∨ id = .original place ∨ id ∈ state.after place := by
  unfold Rewriting.block
  simp only [mem_flatMap, mem_range, mem_append, mem_cons]

theorem takeWhile_sites (split : prog.sites order = done ++ site :: rest) :
    (prog.sites order).takeWhile (· ≠ site) = done := by
  have fresh := SiteBefore.fresh split
  rw [split, takeWhile_append_of_pos, takeWhile_cons_of_neg, append_nil]
  · simp
  · intro other mem
    simp only [ne_eq, decide_not, Bool.not_eq_true', decide_eq_false_iff_not]
    rintro rfl
    exact fresh mem

section

variable {output : Nat} (inv : RewritingInv prog order done state)
  (split : prog.sites order = done ++ (call, .output output) :: rest)
include inv split

/-- The copy of an output has a use exactly when it is kept. -/
theorem RewritingInv.isUsed_iff {opOf : OpId → Op}
    (isDone : OutputDone prog done call output state.opOf opOf) :
    (state.block prog.size).any (fun id =>
        .result (.copyOut call output) 0 ∈ (opOf id).inputs ++ (opOf id).outputs) = true ↔
      prog.isKept order call output = true := by
  have prefixEq := takeWhile_sites split
  unfold Program.isKept Program.isUserOf
  simp only [prefixEq, any_eq_true, decide_eq_true_eq, mem_range, Bool.and_eq_true]
  constructor
  · rintro ⟨id, inBlock, uses⟩
    obtain ⟨place, inside, isId⟩ := mem_block.mp inBlock
    refine ⟨place, inside, ?_⟩
    rcases isId with inBefore | rfl | inAfter
    · rw [inv.before] at inBefore
      obtain ⟨input, isInput, rfl⟩ := mem_map.mp inBefore
      obtain ⟨below, mem⟩ := List.mem_filter.mp isInput
      have isEntry := getElem?_eq_getElem (mem_range.mp below)
      rw [isDone.copyIn place input _ (decide_eq_true_eq.mp mem) isEntry] at uses
      have same := (mem_cons.mp uses).resolve_right (by simp)
      obtain ⟨isResult, apart⟩ := Program.replacedValue_eq_copyOut (.inl isEntry) same.symm
      rw [isResult] at isEntry
      exact ⟨apart, .input input, (Op.mem_slots _).mpr (by
        rw [Op.operand, isEntry]
        exact Option.some_ne_none _),
        isEntry, rfl⟩
    · rw [isDone.original, Program.rewrittenOp] at uses
      rcases mem_append.mp uses with isInput | isOutput
      · obtain ⟨input, below, same⟩ := mem_mapIdx.mp isInput
        have isEntry := getElem?_eq_getElem below
        unfold Program.rewrittenInput at same
        split at same
        · cases same
        · obtain ⟨isResult, apart⟩ := Program.replacedValue_eq_copyOut (.inl isEntry) same
          rw [isResult] at isEntry
          exact ⟨apart, .input input, (Op.mem_slots _).mpr (by
        rw [Op.operand, isEntry]
        exact Option.some_ne_none _),
            isEntry, rfl⟩
      · obtain ⟨other, below, same⟩ := mem_mapIdx.mp isOutput
        have isEntry := getElem?_eq_getElem below
        unfold Program.rewrittenOutput at same
        split at same
        · cases same
        · rename_i notDone
          obtain ⟨isResult, apart⟩ := Program.replacedValue_eq_copyOut (.inr isEntry) same
          rw [isResult] at isEntry
          exact ⟨apart, .output other, (Op.mem_slots _).mpr (by
        rw [Op.operand, isEntry]
        exact Option.some_ne_none _),
            isEntry, decide_eq_true fun mem => notDone (mem_append_left _ mem)⟩
    · rw [inv.after, mem_reverse] at inAfter
      obtain ⟨other, isOther, rfl⟩ := mem_map.mp inAfter
      obtain ⟨below, mem⟩ := List.mem_filter.mp isOther
      have isEntry := getElem?_eq_getElem (mem_range.mp below)
      rw [isDone.copyOut place other _ (mem_append_left _ (decide_eq_true_eq.mp mem).1)
        isEntry] at uses
      rcases mem_cons.mp uses with absurdity | absurdity
      · cases absurdity
      · exact absurd (mem_singleton.mp absurdity).symm getSingleRoot_ne_result
  · rintro ⟨place, inside, apart, slot, -, isOperand, isUser⟩
    have replaced : prog.replacedValue (done ++ [(call, .output output)]) place
        (.result (.original call) output) = .result (.copyOut call output) 0 := by
      exact if_pos ⟨mem_append_right _ (mem_singleton_self _), apart⟩
    cases slot with
    | input input =>
      have isEntry : (prog.opAt place).inputs[input]? = _ := isOperand
      by_cases mem : (place, Slot.input input) ∈ done
      · refine ⟨.copyIn place input, mem_block.mpr ⟨place, inside, .inl ?_⟩, ?_⟩
        · rw [inv.before]
          exact mem_map_of_mem (List.mem_filter.mpr ⟨mem_range.mpr
            (List.getElem?_eq_some_iff.mp isEntry).1, decide_eq_true mem⟩)
        · rw [isDone.copyIn place input _ mem isEntry, replaced]
          exact mem_cons_self
      · refine ⟨.original place, mem_block.mpr ⟨place, inside, .inr (.inl rfl)⟩, ?_⟩
        rw [isDone.original]
        refine mem_append_left _ (mem_of_getElem? (i := input) ?_)
        rw [Program.rewrittenOp, getElem?_mapIdx, isEntry, Option.map_some,
          Program.rewrittenInput, if_neg (by simpa using mem), replaced]
    | output other =>
      have isEntry : (prog.opAt place).outputs[other]? = _ := isOperand
      have notDone : (place, Slot.output other) ∉ done ++ [(call, .output output)] := by
        intro mem
        rcases mem_append.mp mem with inDone | isThis
        · exact (decide_eq_true_eq.mp isUser) inDone
        · cases mem_singleton.mp isThis
          exact apart rfl
      refine ⟨.original place, mem_block.mpr ⟨place, inside, .inr (.inl rfl)⟩, ?_⟩
      rw [isDone.original]
      refine mem_append_right _ (mem_of_getElem? (i := other) ?_)
      rw [Program.rewrittenOp, getElem?_mapIdx, isEntry, Option.map_some,
        Program.rewrittenOutput, if_neg notDone, replaced]

theorem RewritingInv.replaceOutputArg
    (replaced : prog.replaceOutputArg (prog.calleeOf call) call output state = some after) :
    RewritingInv prog order (done ++ [(call, .output output)]) after := by
  have fresh := SiteBefore.fresh split
  obtain ⟨callee, value, isCall, found⟩ := SiteBefore.operand split
  have isOutput : (prog.opAt call).outputs[output]? = some value := found
  have current : (state.opOf (.original call)).outputs[output]? =
      some (prog.replacedValue done call value) := by
    rw [inv.original, Program.rewrittenOp, getElem?_mapIdx, isOutput, Option.map_some,
      Program.rewrittenOutput, if_neg fresh]
  unfold Program.replaceOutputArg at replaced
  rw [current] at replaced
  obtain ⟨srcRoot, isRoot, replaced⟩ := Option.bind_eq_some_iff.mp replaced
  -- The root is known only of an operand that was there at first.
  have keeps : prog.replacedValue done call value = value := by
    rcases Program.replacedValue_eq_or done call value with kept | ⟨_, _, -, -, -, copied⟩
    · exact kept
    · rw [copied] at isRoot
      unfold Program.getRootForChangedOperand at isRoot
      split at isRoot
      · rename_i changed
        obtain ⟨place, -, isOperand⟩ := mem_flatMap.mp changed
        split at isOperand
        · obtain ⟨slot, -, isOperand⟩ := mem_filterMap.mp isOperand
          split at isOperand
          · exact (Program.definedBefore_of_mem (Program.mem_of_operand isOperand)).2.elim
          · cases isOperand
        · exact absurd isOperand not_mem_nil
      · cases isRoot
  have sameRoot : srcRoot = prog.getSingleRoot value := by
    rw [keeps] at isRoot
    unfold Program.getRootForChangedOperand at isRoot
    split at isRoot
    · exact (Option.some.inj isRoot).symm
    · cases isRoot
  rw [sameRoot] at replaced
  have isDone := inv.outputDone split isCall isOutput
  have isUsed := inv.isUsed_iff split isDone
  cases replaced
  have mem_iff : ∀ place slot, (place, slot) ∈ done ++ [(call, Slot.output output)] ↔
      (place, slot) ∈ done ∨ place = call ∧ slot = .output output := by
    intro place slot
    rw [mem_append, mem_singleton, Prod.mk.injEq]
  refine ⟨isDone.original, fun place input entry mem => ?_, isDone.copyOut, fun place => ?_,
    fun place => ?_⟩
  · exact isDone.copyIn place input entry
      (((mem_iff _ _).mp mem).resolve_right fun absurdity => nomatch absurdity.2)
  · rw [inv.before]
    simp only [mem_iff, reduceCtorEq, and_false, or_false]
  · dsimp only
    have others : ∀ idx, (call, Slot.output idx) ∈ done → idx < output := by
      intro idx mem
      rcases (SiteBefore.of_split split mem).1 rfl with absurdity | ⟨-, before⟩
      · exact absurd absurdity (Nat.lt_irrefl _)
      · exact before
    have inside := (List.getElem?_eq_some_iff.mp isOutput).1
    by_cases kept : prog.isKept order call output = true
    · rw [if_pos (isUsed.mpr kept)]
      by_cases same : place = call
      · have each : ∀ idx, ((call, Slot.output idx) ∈ done ++ [(call, .output output)] ∧
            prog.isKept order call idx = true) ↔
              ((call, Slot.output idx) ∈ done ∧ prog.isKept order call idx = true) ∨
                idx = output := by
          intro idx
          rw [mem_iff]
          simp only [Slot.output.injEq, true_and]
          constructor
          · rintro ⟨inDone | isThis, isKept⟩
            · exact .inl ⟨inDone, isKept⟩
            · exact .inr isThis
          · rintro (⟨inDone, isKept⟩ | rfl)
            · exact ⟨.inl inDone, isKept⟩
            · exact ⟨.inr rfl, kept⟩
        rw [same, update_self, inv.after]
        simp only [each]
        rw [filter_range_append inside fun idx isHeld => others idx isHeld.1, map_append,
          reverse_append]
        rfl
      · rw [update_of_ne same, inv.after]
        simp only [mem_iff, same, false_and, or_false]
    · rw [if_neg fun used => kept (isUsed.mp used), inv.after]
      refine congrArg (fun indexes => (map _ indexes).reverse) ?_
      refine filter_congr fun idx _ => decide_eq_decide.mpr ?_
      rw [mem_iff]
      refine and_congr_left fun isKept => ⟨.inl, fun mem => mem.resolve_right ?_⟩
      rintro ⟨rfl, ⟨⟩⟩
      exact kept isKept

end

end

/-! ### The pass -/

theorem legalizeRepeatingFuncCalls_inv {final : Rewriting}
    (legalized : prog.legalizeRepeatingFuncCalls order = some final) :
    RewritingInv prog order (prog.sites order) final := by
  refine Attempt.foldlM_done (RewritingInv prog order) ?_ (start_inv prog order)
    (Program.legalizeRepeatingFuncCalls_eq legalized)
  rintro done ⟨call, slot⟩ rest split state after inv ran
  cases slot with
  | input input =>
    cases ran
    exact inv.replaceInputArg split
  | output output => exact inv.replaceOutputArg split ran

/-! ### What is left -/

variable {Content : Type}

/-! ### What is left -/

/-- The contents of the buffers, and what the last call of a callee gave for each output. -/
structure Left (Content : Type) where
  kept : Location → Content
  given : Nat → Nat → Content

def Left.give (left : Left Content) (callee output : Nat) (written : Content) : Left Content :=
  { left with
    given := Function.update left.given callee
      (Function.update (left.given callee) output written) }

namespace Program

variable (prog : Program) (order : prog.CalleeOrder) (meaning : Meaning Content)
  (memory : Location → Content) (place : Nat)

/-- The original function up to a place. -/
def originalMachine : Machine Content :=
  executeAll meaning prog.opOf ((List.range place).map .original) ⟨initialPlaces, memory⟩

def contentsUsed : List Content :=
  (prog.opAt place).reads.map ((prog.originalMachine meaning memory place).read meaning)

/-- An output of a call that is updated is given, and the others are written. -/
def leaveOutput (contents : List Content) (left : Left Content)
    (output : Value × Nat) : Left Content :=
  match (prog.opAt place).result meaning contents output.2 with
  | none => left
  | some written =>
    if (place, .output output.2) ∈ prog.sites order then
      left.give (prog.calleeOf place) output.2 written
    else { left with kept := writeTo meaning left.kept (prog.places output.1) written }

/-- The copy of an output is written to its buffer. -/
def copyKept (left : Left Content) (output : Nat) : Left Content :=
  match (prog.opAt place).outputs[output]? with
  | none => left
  | some value =>
    { left with
      kept := Function.update left.kept (prog.places value).location
        (left.given (prog.calleeOf place) output) }

def keptCopies : List Nat :=
  (List.range (prog.opAt place).outputs.length).filter fun output =>
    (place, .output output) ∈ prog.sites order ∧ prog.isKept order place output = true

def leave (contents : List Content) (left : Left Content) : Left Content :=
  (prog.keptCopies order place).reverse.foldl (prog.copyKept place)
    ((prog.opAt place).writes.zipIdx.foldl (prog.leaveOutput order meaning place contents) left)

/-- What the original function would leave if the outputs whose copies are erased were not
written. -/
def left : Nat → Left Content
  | 0 => ⟨memory, fun callee output => memory (.common callee (.output output))⟩
  | place + 1 => prog.leave order meaning place (prog.contentsUsed meaning memory place)
      (left place)

/-- A result that a call takes from an earlier call of the same callee as it is. -/
def IsDirect (place call number : Nat) : Prop :=
  (call, .output number) ∈ prog.sites order ∧ prog.callee place = prog.callee call

instance (place call number : Nat) : Decidable (prog.IsDirect order place call number) :=
  inferInstanceAs (Decidable (_ ∧ _))

/-- What is left of a value that an operation uses. -/
def contentLeft (value : Value) (left : Left Content) : Content :=
  let inBuffer := readThrough meaning (prog.places value).views
    (left.kept (prog.places value).location)
  match value with
  | .result (.original call) number =>
    if prog.IsDirect order place call number then left.given (prog.calleeOf call) number
    else inBuffer
  | _ => inBuffer

end Program

/-! ### Places -/

namespace Program

variable {prog : Program}

def placesUpTo (prog : Program) (bound : Nat) : Value → Place :=
  (List.range bound).foldl (fun places place =>
    addAliases places (.original place) (prog.opAt place)) initialPlaces

theorem placesUpTo_succ (bound : Nat) : prog.placesUpTo (bound + 1) =
    addAliases (prog.placesUpTo bound) (.original bound) (prog.opAt bound) := by
  unfold placesUpTo
  rw [range_succ, foldl_append]
  rfl

variable {value : Value} {bound place number : Nat} {views : List Nat}

theorem placesUpTo_eq {other : Nat} (less : bound ≤ other)
    (defined : value.DefinedBefore prog.ops bound) :
    prog.placesUpTo other value = prog.placesUpTo bound value := by
  induction other, less using Nat.le_induction with
  | base => rfl
  | succ other less ih =>
    rw [placesUpTo_succ, ← ih]
    cases value with
    | buffer => rfl
    | commonArg => rfl
    | result op number =>
      cases op with
      | copyIn => rfl
      | copyOut => rfl
      | original call =>
        have before : call < bound := defined.1
        have apart : OpId.original call ≠ .original other := by
          rintro ⟨⟩
          omega
        rw [addAliases, if_neg apart]

theorem places_eq (inside : bound ≤ prog.size) (defined : value.DefinedBefore prog.ops bound) :
    prog.places value = prog.placesUpTo bound value :=
  placesUpTo_eq inside defined

theorem places_buffer (number : Nat) : prog.places (.buffer number) = ⟨.root number, []⟩ :=
  places_eq (Nat.zero_le _) (show (Value.buffer number).DefinedBefore prog.ops 0 from trivial)

theorem numResults_opAt :
    (prog.opAt place).numResults = ((prog.ops[place]?).map Op.numResults).getD 0 := by
  unfold opAt
  rw [getD_eq_getElem?_getD]
  cases prog.ops[place]? with
  | none => rfl
  | some op => rfl

theorem mem_of_source {op : Op} (isSource : op.source number = some (value, views)) :
    number < op.numResults ∧ value ∈ op.inputs ++ op.outputs := by
  obtain ⟨kind, inputs, outputs⟩ := op
  cases kind <;>
    obtain ⟨other, found, same⟩ := Option.map_eq_some_iff.mp isSource <;>
    cases same <;>
    refine ⟨(List.getElem?_eq_some_iff.mp found).1, ?_⟩ <;>
    first
      | exact mem_append_left _ (mem_of_getElem? found)
      | exact mem_append_right _ (mem_of_getElem? found)

theorem exists_source (op : Op) (inside : number < op.numResults) :
    ∃ value views, op.source number = some (value, views) := by
  obtain ⟨kind, inputs, outputs⟩ := op
  unfold Op.source
  cases kind <;> exact ⟨_, _, by rw [getElem?_eq_getElem inside]; rfl⟩

theorem places_result (isSource : (prog.opAt place).source number = some (value, views)) :
    prog.places (.result (.original place) number) =
      ⟨(prog.places value).location, (prog.places value).views ++ views⟩ := by
  obtain ⟨below, mem⟩ := mem_of_source isSource
  obtain ⟨inside, defined⟩ := definedBefore_of_mem mem
  have isResult : (Value.result (.original place) number).DefinedBefore prog.ops (place + 1) :=
    ⟨Nat.lt_succ_self place, numResults_opAt ▸ below⟩
  rw [places_eq inside isResult, places_eq inside.le defined, placesUpTo_succ, addAliases,
    if_pos rfl, isSource]

theorem exists_root (inside : bound ≤ prog.size) (defined : value.DefinedBefore prog.ops bound) :
    ∃ number, (prog.places value).location = .root number := by
  induction bound using Nat.strong_induction_on generalizing value with
  | _ bound ih =>
    cases value with
    | buffer number => exact ⟨number, by rw [places_buffer]⟩
    | commonArg => exact defined.elim
    | result op number =>
      cases op with
      | copyIn => exact defined.elim
      | copyOut => exact defined.elim
      | original call =>
        obtain ⟨less, below⟩ := defined
        obtain ⟨source, views, isSource⟩ := exists_source (prog.opAt call)
          (numResults_opAt ▸ below)
        rw [places_result isSource]
        obtain ⟨-, sourceDefined⟩ := definedBefore_of_mem (mem_of_source isSource).2
        exact ih call less (less.le.trans inside) sourceDefined

end Program

/-! ### The rewritten function -/

/-- The outputs that are updated are whole buffers, and the others are no results that are taken
directly. -/
structure WholeOutputs (prog : Program) (order : prog.CalleeOrder) : Prop where
  whole : ∀ call output value, (call, Slot.output output) ∈ prog.sites order →
    (prog.opAt call).outputs[output]? = some value → (prog.places value).views = []
  indirect : ∀ place output call number, (place, Slot.output output) ∉ prog.sites order →
    (prog.opAt place).outputs[output]? = some (.result (.original call) number) →
      ¬ prog.IsDirect order place call number

/-- The places of values before the operation at a place, in the rewritten function. -/
structure Placed (prog : Program) (order : prog.CalleeOrder) (bound : Nat)
    (places : Value → Place) : Prop where
  buffer : ∀ number, places (.buffer number) = ⟨.root number, []⟩
  commonArg : ∀ callee slot, places (.commonArg callee slot) = ⟨.common callee slot, []⟩
  result : ∀ call number,
    (Value.result (.original call) number).DefinedBefore prog.ops bound →
      places (.result (.original call) number) =
        if (call, .output number) ∈ prog.sites order then
          ⟨.common (prog.calleeOf call) (.output number), []⟩
        else prog.places (.result (.original call) number)
  copyOut : ∀ call number, call < bound → (call, .output number) ∈ prog.sites order →
    prog.isKept order call number = true →
      places (.result (.copyOut call number) 0) = prog.places (.result (.original call) number)

/-- The buffers of the rewritten function have what is left. -/
structure Agrees (memory : Location → Content) (left : Left Content) : Prop where
  roots : ∀ number, memory (.root number) = left.kept (.root number)
  given : ∀ callee output, memory (.common callee (.output output)) = left.given callee output

section

variable {prog : Program} {order : prog.CalleeOrder} {meaning : Meaning Content}
  {memory : Location → Content} {places : Value → Place} {left : Left Content} {place : Nat}
  {slot : Slot} {value : Value}

theorem Placed.replacedValue (placed : Placed prog order place places)
    (isOperand : (prog.opAt place).operand slot = some value)
    (notDone : ∀ output, slot = .output output → (place, slot) ∉ prog.sites order) :
    places (prog.replacedValue (prog.sites order) place value) =
      match value with
      | .result (.original call) number =>
        if prog.IsDirect order place call number then
          ⟨.common (prog.calleeOf call) (.output number), []⟩
        else prog.places value
      | _ => prog.places value := by
  have defined := (Program.definedBefore_of_mem (Program.mem_of_operand isOperand)).2
  unfold Program.replacedValue
  cases value with
  | buffer number => rw [placed.buffer, Program.places_buffer]
  | commonArg => exact defined.elim
  | result op number =>
    cases op with
    | copyIn => exact defined.elim
    | copyOut => exact defined.elim
    | original call =>
      unfold Program.IsDirect
      by_cases isDone : (call, Slot.output number) ∈ prog.sites order
      · by_cases repeats : prog.callee place = prog.callee call
        · simp only [isDone, repeats, not_true_eq_false, and_false, if_false, and_self, if_true,
            ne_eq]
          rw [placed.result call number defined, if_pos isDone]
        · -- The operation is a user of the copy, which is kept.
          have kept : prog.isKept order call number = true := by
            unfold Program.isKept Program.isUserOf
            simp only [any_eq_true, mem_range, Bool.and_eq_true, decide_eq_true_eq]
            refine ⟨place, ?_, repeats, slot, ?_, isOperand, ?_⟩
            · exact (Program.definedBefore_of_mem (Program.mem_of_operand isOperand)).1
            · exact (Op.mem_slots _).mpr (by
                rw [isOperand]
                exact Option.some_ne_none _)
            · cases slot with
              | input => rfl
              | output idx =>
                exact decide_eq_true fun mem =>
                  notDone idx rfl ((List.takeWhile_prefix _).subset mem)
          simp only [isDone, repeats, not_false_eq_true, and_false, if_false, and_self, if_true,
            ne_eq]
          exact placed.copyOut call number defined.1 isDone kept
      · simp only [isDone, false_and, if_false]
        rw [placed.result call number defined, if_neg isDone]

theorem Placed.read (placed : Placed prog order place places) (agrees : Agrees memory left)
    (isOperand : (prog.opAt place).operand slot = some value)
    (notDone : ∀ output, slot = .output output → (place, slot) ∉ prog.sites order) :
    Machine.read meaning ⟨places, memory⟩
        (prog.replacedValue (prog.sites order) place value) =
      prog.contentLeft order meaning place value left := by
  obtain ⟨inside, defined⟩ := Program.definedBefore_of_mem (Program.mem_of_operand isOperand)
  obtain ⟨number, isRoot⟩ := Program.exists_root inside.le defined
  have inBuffer : readThrough meaning (prog.places value).views
      (memory (prog.places value).location) =
        readThrough meaning (prog.places value).views
          (left.kept (prog.places value).location) := by
    rw [isRoot, agrees.roots]
  unfold Machine.read Program.contentLeft
  dsimp only
  rw [placed.replacedValue isOperand notDone]
  cases value with
  | buffer => exact inBuffer
  | commonArg => exact inBuffer
  | result op number =>
    cases op with
    | original call =>
      dsimp only
      split
      · exact agrees.given _ _
      · exact inBuffer
    | copyIn => exact inBuffer
    | copyOut => exact inBuffer

end

end NpuPlugin.RepeatingCalls
